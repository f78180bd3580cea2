import TypedClient.Client.MediaTypeGrammar
import TypedClient.Proofs.Document.Named
import TypedClient.Proofs.Model.Keys
import TypedClient.Proofs.Resolution.OwnTypes
import TypedClient.Text.AsciiTable

/-! The properties that named schemas declare. A schema that is read as an object, or as an `allOf`
of several members, has a model of its own, with the properties that it declares and those of the
objects that are merged into it. -/

namespace TypedClient

namespace Schema

/-! ### What a schema declares -/

/-- An object that is written out where it stands. -/
def inlineObject? : Json → Option (Assoc String Json)
  | .obj fields => if form fields = .object then some fields else none
  | _ => none

/-- All names of properties that a schema declares: its own and those of the objects in its
`allOf`. -/
def declaredNames (fields : Assoc String Json) : List String :=
  Assoc.keys (declaredProperties fields) ++
    (((items? fields "allOf").getD []).filterMap inlineObject?).flatMap fun inner =>
      Assoc.keys (declaredProperties inner)

def isParameter (fields : Assoc String Json) : Bool := hasFlag fields "isGenericParameter"

/-- Whether a schema is an instance of a generic definition. -/
def isInstance (fields : Assoc String Json) : Bool :=
  hasFlag fields "isGenericType" && !hasFlag fields "isGenericTypeDefinition"

/-! ### What its model has -/

/-- Whether a schema says nothing but that null is allowed. -/
def isNullOnly : Json → Bool
  | .obj fields => allowsNull fields && decide (form fields = .empty)
  | _ => false

/-- The members of the `allOf` of an object, or of a schema that is nothing else; there those that
only allow null do not count. -/
def allOfMembers (fields : Assoc String Json) : List Json :=
  match form fields, combination? fields with
  | .object, _ => (items? fields "allOf").getD []
  | .combination, some (.allOf, members) => members.filter fun v => !isNullOnly v
  | _, _ => []

/-- The objects that are merged: none of one member, all of several. -/
def mergedObjects : List Json → List (Assoc String Json)
  | [_] => []
  | members => members.filterMap inlineObject?

def ownProperties (fields : Assoc String Json) : Assoc String Json :=
  if form fields = .object then declaredProperties fields else []

/-- The names of the properties that the model of a schema has. -/
def modelNames (fields : Assoc String Json) : List String :=
  Assoc.keys (ownProperties fields) ++
    (mergedObjects (allOfMembers fields)).flatMap fun inner =>
      Assoc.keys (declaredProperties inner)

/-- Whether the schema is one that has a model: an object with a fixed set of properties or a
generic type, or an `allOf` of several members. -/
def hasModel (fields : Assoc String Json) : Bool :=
  match form fields with
  | .object => !isOpen fields || hasFlag fields "isGenericType"
  | .combination => decide (2 ≤ (allOfMembers fields).length)
  | _ => false

end Schema

/-! ### What nodes merge -/

namespace Arena.Holds

open Schema

variable {a : Arena} {v : Json} {id : NodeId}

/-- The objects among nodes are those that are written out as objects. -/
theorem inlineObject? (h : a.Holds v id) :
    Option.Rel (ShapeTold a) (inlineObject? v) (match (a.get id).kind with
      | .object shape => some shape
      | _ => none) := by
  cases v with
  | obj fields =>
    have hkind := h.told.kind
    show Option.Rel _ (if form fields = .object then some fields else none) _
    generalize form fields = f, (a.get id).kind = kind at hkind
    cases hkind with
    | object hshape => exact .some hshape
    | reference | array | enum | primitive | combination | empty => exact .none
  | null | bool | num | str | arr =>
    rw [h.get_of_not_object nofun]
    exact .none

theorem isNullOnly (h : a.Holds v id) : Resolver.isNullOnly (a.get id) = isNullOnly v := by
  cases v with
  | obj fields =>
    have hkind := h.told.kind
    show ((a.get id).nullable && _) = (allowsNull fields && decide (form fields = .empty))
    rw [h.told.nullable]
    congr 1
    generalize form fields = f, (a.get id).kind = kind at hkind
    cases hkind with
    | reference | object | array | enum | primitive | combination | empty => rfl
  | null | bool | num | str | arr =>
    rw [h.get_of_not_object nofun]
    rfl

end Arena.Holds

namespace Document

open Schema

variable {d : Document} {fields : Assoc String Json} {vs : List Json} {ids : List NodeId}

theorem told_of_mergedObjects (h : List.Forall₂ d.arena.Holds vs ids) :
    List.Forall₂ (ShapeTold d.arena) (mergedObjects vs) (d.mergedShapes ids) := by
  match h with
  | .nil => exact .nil
  | .cons _ .nil => exact .nil
  | .cons h (.cons h' hrest) =>
    exact List.rel_filterMap (fun _ _ h => h.inlineObject?) (.cons h (.cons h' hrest))

theorem holds_of_saying (h : List.Forall₂ d.arena.Holds vs ids) :
    List.Forall₂ d.arena.Holds (vs.filter fun v => !isNullOnly v) (d.sayingMembers ids) :=
  filter_of_forall₂ h fun _ _ h => by rw [h.isNullOnly]

theorem source?_of_object {id : NodeId} {shape : ObjectShape}
    (h : (d.arena.get id).kind = .object shape) :
    d.source? id = (d.plan? (d.arena.get id) shape).map .object := by
  unfold source?
  dsimp only
  rw [h]

theorem source?_of_allOf {id : NodeId} {members : List NodeId}
    (h : (d.arena.get id).kind = .combination .allOf members)
    (hseveral : 2 ≤ (d.sayingMembers members).length) :
    d.source? id =
      (d.plan? (d.arena.get id) { allOf := d.sayingMembers members }).map .object := by
  unfold source?
  dsimp only
  rw [h]
  dsimp only
  match d.sayingMembers members, hseveral with
  | _ :: _ :: _, _ => rfl

/-- The node of a schema that has a model is made from a plan for an object. -/
theorem plan_of_hasModel {id : NodeId} (h : d.arena.Holds (.obj fields) id)
    (hmodel : hasModel fields = true) :
    ∃ shape, d.source? id = (d.plan? (d.arena.get id) shape).map .object ∧
      (shape.additional = none ∨ hasFlag fields "isGenericType" = true) ∧
      Assoc.Alike d.arena.Holds (ownProperties fields) shape.properties ∧
      List.Forall₂ d.arena.Holds (allOfMembers fields) shape.allOf := by
  have hkind := h.told.kind
  unfold hasModel allOfMembers at hmodel
  unfold ownProperties allOfMembers
  generalize form fields = f at hkind hmodel ⊢
  generalize hk : (d.arena.get id).kind = kind at hkind
  cases hkind with
  | reference | array | enum | primitive | empty => cases hmodel
  | @object shape hshape =>
    have hclosed : shape.additional = none ∨ hasFlag fields "isGenericType" = true := by
      rw [← hshape.additional] at hmodel
      simpa using hmodel
    exact ⟨shape, source?_of_object hk, hclosed, hshape.properties, hshape.allOf⟩
  | @combination how members ids hcombination hm =>
    rw [hcombination] at hmodel ⊢
    cases how with
    | anyOf | oneOf => cases hmodel
    | allOf =>
      have hsaying := holds_of_saying hm
      have hseveral : 2 ≤ (members.filter fun v => !isNullOnly v).length :=
        of_decide_eq_true hmodel
      exact ⟨{ allOf := d.sayingMembers ids },
        source?_of_allOf hk (hsaying.length_eq ▸ hseveral), .inl rfl, .nil, hsaying⟩

/-- The plan for a schema that has a model has a field for each property of the model. -/
theorem mem_fields_of_hasModel {shape : ObjectShape} {plan : Plan} {schema : SchemaNode}
    (hplan : d.plan? schema shape = some plan)
    (hproperties : Assoc.Alike d.arena.Holds (ownProperties fields) shape.properties)
    (hallOf : List.Forall₂ d.arena.Holds (allOfMembers fields) shape.allOf) (name : String) :
    name ∈ Assoc.keys plan.fields ↔ name ∈ modelNames fields := by
  have hmerged : (d.mergedShapes shape.allOf).map (fun other => Assoc.keys other.properties) =
      (mergedObjects (allOfMembers fields)).map fun inner =>
        Assoc.keys (declaredProperties inner) :=
    (map_eq_of_forall₂ (told_of_mergedObjects hallOf) fun _ _ h => h.properties.keys).symm
  rw [mem_fields_of_plan? hplan, modelNames, List.mem_append, hproperties.keys, List.flatMap_def,
    ← hmerged, ← List.flatMap_def, List.mem_flatMap]

end Document

namespace Projection

open Model Resolver Schema

variable {root : Json} {d : Document} {options : Client.Options} {p : Projection}

/-- A named schema that is read as an object, or as an `allOf` of several members, has a model of
its own, under its name; the names of its properties are those that the schema declares. -/
theorem model_of_hasModel [MediaType.Reading] [Text.Transliteration]
    (h : Document.ofJson root = .ok d) (hp : build d options = .ok p)
    {name : String} {fields : Assoc String Json}
    (hschema : Assoc.get? (Document.namedSchemas root) name = some (.obj fields))
    (hparameter : isParameter fields = false) (hinstance : isInstance fields = false)
    (hmodel : hasModel fields = true) :
    ∃ parsed, TypeName.parse name = .ok parsed ∧ ∃ m ∈ p.models,
      m.key = parsed.fileKey ∧ m.exportName = parsed.name ∧ ∀ property,
        property ∈ m.properties.map ModelProperty.name ↔ property ∈ modelNames fields := by
  have hd := Document.forest_of_ofJson h
  obtain ⟨r, hr, -, hmodels⟩ := finished_of_build h hp
  obtain ⟨id, hn, hholds⟩ := Document.holds_named h hschema
  have hhints := hholds.told.hints
  obtain ⟨shape, hsource, hclosed, hproperties, hallOf⟩ :=
    Document.plan_of_hasModel hholds hmodel
  -- the schema has got a type, so there is a plan for it
  obtain ⟨source, hsome⟩ := hr.source?_eq_some hn
  rw [hsource] at hsome
  obtain ⟨plan, hplan, -⟩ := Option.map_eq_some_iff.1 hsome
  rw [hplan] at hsource
  obtain ⟨hstart, hgenerics⟩ := Document.plan?_eq_some hplan
  rw [isParameter, ← hhints.isGenericParameter] at hparameter
  rw [isInstance, ← hhints.isGenericType, ← hhints.isGenericTypeDefinition] at hinstance
  rw [← hhints.isGenericType] at hclosed
  have htakes := Document.takesName_of_genericity? hgenerics hclosed hinstance
  obtain ⟨t, parsed, ht, hparsed, hkeys, properties, base, arguments, hget⟩ :=
    hr.takesName hd hn hsource htakes
  rw [hstart] at hget
  refine ⟨parsed, hparsed, entry r.graph t, ?_, ?_, ?_, fun property => ?_⟩
  · rw [hmodels]
    refine entry_mem_of_isModel hr ht ?_
    rw [hget]
    exact Document.isModel_objectType hparameter hinstance properties base arguments parsed
  · rw [entry_key, hget]
    rfl
  · rw [entry_exportName, hget]
    rfl
  · rw [entry_propertyNames (by rw [hget]; rfl), hkeys]
    exact Document.mem_fields_of_hasModel hplan hproperties hallOf property

/-- A document in the newer layout with these named schemas. -/
def documentWith (schemas : Assoc String (Assoc String Json)) : Json :=
  .obj [("openapi", .str "3.0.0"),
    ("components", .obj [("schemas", .obj (schemas.map fun s => (s.1, .obj s.2)))])]

theorem get?_namedSchemas_documentWith {schemas : Assoc String (Assoc String Json)}
    (hkeys : (Assoc.keys schemas).Nodup) {name : String} {fields : Assoc String Json}
    (h : (name, fields) ∈ schemas) :
    Assoc.get? (Document.namedSchemas (documentWith schemas)) name = some (.obj fields) := by
  show Assoc.get? (schemas.map fun s => (s.1, Json.obj s.2)) name = _
  refine Assoc.get?_of_mem ?_ (List.mem_map.2 ⟨_, h, rfl⟩)
  rwa [Assoc.keys, List.map_map]

def pet : Assoc String Json :=
  [("type", .str "object"), ("properties", .obj [("name", .obj [("type", .str "string")])])]

/-- A dog, which extends a pet by whether it barks. -/
def dog : Assoc String Json := [("allOf", .arr [
  .obj [("$ref", .str "#/components/schemas/Pet")],
  .obj [("type", .str "object"), ("properties", .obj [
    ("barks", .obj [("type", .str "boolean")])])]])]

theorem model_of_hasModel_dog :
    ∃ d p, Document.ofJson (documentWith [("Pet", pet), ("Shop.Dog", dog)]) = .ok d ∧
      build d {} = .ok p ∧ ∃ m ∈ p.models, m.key = "Shop.Dog" ∧ m.exportName = "Dog" ∧
        ∀ property, property ∈ m.properties.map ModelProperty.name ↔ property ∈ ["barks"] := by
  have hrun : (Document.ofJson (documentWith [("Pet", pet), ("Shop.Dog", dog)]) >>= fun d =>
      (fun _ => ()) <$> build d {}) = .ok () := by decide +kernel
  have hparse : (TypeName.parse "Shop.Dog").map (fun t => (t.fileKey, t.name)) =
      .ok ("Shop.Dog", "Dog") := by decide +kernel
  have hschema : Assoc.get? (Document.namedSchemas (documentWith [("Pet", pet), ("Shop.Dog", dog)]))
      "Shop.Dog" = some (.obj dog) :=
    get?_namedSchemas_documentWith (by decide) (List.mem_cons_of_mem _ List.mem_cons_self)
  have hnames : modelNames dog = ["barks"] := by decide +kernel
  obtain ⟨d, p, hd, hp, -⟩ := exists_of_run hrun
  obtain ⟨parsed, hparsed, m, hm, hkey, hname, hproperties⟩ := model_of_hasModel hd hp hschema
    (by decide +kernel) (by decide +kernel) (by decide +kernel)
  rw [hparsed] at hparse
  obtain ⟨hfile, hown⟩ := Prod.mk.inj (Except.ok.inj hparse)
  rw [hnames] at hproperties
  exact ⟨d, p, hd, hp, m, hm, hkey.trans hfile, hname.trans hown, hproperties⟩

/-! ### Schemas without a model of their own -/

/-- A model extends another one: that of its base, or of the definition of which its base is an
instance. -/
def Extends (p : Projection) (m e : ModelEntry) : Prop :=
  ∃ t b owner, Shows p t m ∧ (p.types.graph.get t).base = some b ∧
    (owner = b ∨ (p.types.graph.get b).genericDefinition = some owner) ∧ Shows p owner e

/-- All that a schema declares stands in a model under its name, or in one that this extends. -/
def ShowsDeclared (p : Projection) (name : String) (fields : Assoc String Json) : Prop :=
  ∃ parsed, TypeName.parse name = .ok parsed ∧ ∃ m ∈ p.models,
    m.key = parsed.fileKey ∧ m.exportName = parsed.name ∧
    ∀ property ∈ declaredNames fields, ∃ e, Relation.ReflTransGen (Extends p) m e ∧
      property ∈ e.properties.map ModelProperty.name

/-- An object whose only property is its label. -/
def labelled : Assoc String Json :=
  [("type", .str "object"), ("properties", .obj [("label", .obj [("type", .str "string")])])]

/-- Schemas that declare a label which no model has: an open object, a combination of one member, an
object with one member to combine, and a text. -/
def labelLess : Assoc String (Assoc String Json) := [
  ("Bag", labelled ++ [("additionalProperties", .bool true)]),
  ("Alias", [("allOf", .arr [.obj labelled])]),
  ("Box", [("type", .str "object"), ("allOf", .arr [.obj labelled])]),
  ("Note", Assoc.put labelled "type" (.str "string"))]

/-- Only one of these has a model, which has no properties. -/
theorem unshown_labelLess :
    ∃ d p, Document.ofJson (documentWith labelLess) = .ok d ∧ build d {} = .ok p ∧
      p.models.map ModelEntry.exportName = ["Box"] ∧
      ∀ s ∈ labelLess,
        Assoc.get? (Document.namedSchemas (documentWith labelLess)) s.1 = some (.obj s.2) ∧
        form s.2 ≠ .reference ∧ isParameter s.2 = false ∧ isInstance s.2 = false ∧
        "label" ∈ declaredNames s.2 ∧ ¬ ShowsDeclared p s.1 s.2 := by
  have hrun : (Document.ofJson (documentWith labelLess) >>= fun d => (fun p =>
      p.models.map fun m => (m.exportName, m.properties.map ModelProperty.name)) <$> build d {}) =
        .ok [("Box", [])] := by decide +kernel
  have hdeclare : ∀ s ∈ labelLess, form s.2 ≠ .reference ∧ isParameter s.2 = false ∧
      isInstance s.2 = false ∧ "label" ∈ declaredNames s.2 := by decide +kernel
  obtain ⟨d, p, hd, hp, hholds⟩ := exists_of_run hrun
  have hempty : ∀ m ∈ p.models, m.properties.map ModelProperty.name = [] := fun m hm => by
    have hpair := List.mem_map_of_mem hm (f := fun m : ModelEntry =>
      (m.exportName, m.properties.map ModelProperty.name))
    rw [hholds] at hpair
    exact congrArg Prod.snd (List.mem_singleton.1 hpair)
  refine ⟨d, p, hd, hp, ?_, fun s hs => ⟨get?_namedSchemas_documentWith (by decide) hs, ?_⟩⟩
  · have hnames := congrArg (List.map Prod.fst) hholds
    rwa [List.map_map] at hnames
  · obtain ⟨hform, hparameter, hinstance, hlabel⟩ := hdeclare s hs
    refine ⟨hform, hparameter, hinstance, hlabel, ?_⟩
    rintro ⟨_, -, m, hm, -, -, hshown⟩
    obtain ⟨e, hextends, he⟩ := hshown "label" hlabel
    have hmem : e ∈ p.models := by
      rcases hextends.cases_tail with rfl | ⟨_, -, _, _, _, -, -, -, hshows⟩
      · exact hm
      · exact hshows.mem
    rw [hempty e hmem] at he
    exact absurd he List.not_mem_nil

end Projection

end TypedClient
