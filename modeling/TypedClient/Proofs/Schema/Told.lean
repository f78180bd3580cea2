import TypedClient.Proofs.Schema.ReadAlike
import TypedClient.Proofs.Schema.Similar

/-! What a node says of the schema that it was read from. The keywords of a schema alone tell which
form it has; the kind of its node, and what that kind holds, follow from the form. Schemas inside a
schema are read by runs that come before its own node, and an arena keeps all of its nodes, so an
arena that holds a schema holds what stands inside it as well. -/

namespace TypedClient

namespace Building

variable {α β : Type} {a s t : Arena} {m : Building α}

/-! ### Runs that gave a value -/

/-- A computation that leaves the nodes where they are when it gives a value. -/
def Keeps (m : Building α) : Prop := ∀ s t x, outcome m s = (.ok x, t) → s.Kept t

theorem keeps_pure (x : α) : Keeps (pure x) := by
  intro s t y h
  cases h
  exact fun _ _ h => h

theorem Keeps.bind {f : α → Building β} (hm : Keeps m) (hf : ∀ x, Keeps (f x)) :
    Keeps (m >>= f) := by
  intro s t y h
  obtain ⟨x, u, hx, hy⟩ := outcome_bind_eq_ok.1 h
  exact fun id node hnode => hf x u t y hy id node (hm s u x hx id node hnode)

theorem keeps_add (node : SchemaNode) : Keeps (add node) := by
  intro s t id h
  cases h
  exact s.kept_push node

theorem keeps_mapM {f : α → Building β} (hf : ∀ x, Keeps (f x)) (xs : List α) :
    Keeps (xs.mapM f) := by
  induction xs with
  | nil =>
    rw [List.mapM_nil]
    exact keeps_pure []
  | cons x xs ih =>
    rw [List.mapM_cons]
    exact (hf x).bind fun _ => ih.bind fun _ => keeps_pure _

theorem Uniform.keeps {ρ : (NodeId → NodeId → Prop) → α → α → Prop} (h : Uniform m ρ) :
    Keeps m :=
  fun _ _ _ hm => (gives_left h hm {}).1

/-- The computation has given `x` on the way to this arena, which has all the nodes from then. -/
def Gave (a : Arena) (m : Building α) (x : α) : Prop :=
  ∃ s t, outcome m s = (.ok x, t) ∧ t.Kept a

theorem Gave.bind {f : α → Building β} {y : β} (h : Gave a (m >>= f) y) (hf : ∀ x, Keeps (f x)) :
    ∃ x, Gave a m x ∧ Gave a (f x) y := by
  obtain ⟨s, t, h, ht⟩ := h
  obtain ⟨x, u, hx, hy⟩ := outcome_bind_eq_ok.1 h
  exact ⟨x, ⟨s, u, hx, fun id node hnode => ht id node (hf x u t y hy id node hnode)⟩, u, t, hy, ht⟩

theorem Gave.of_pure {x y : α} (h : Gave a (pure x) y) : x = y := by
  obtain ⟨s, t, h, -⟩ := h
  cases h
  rfl

theorem Gave.map {f : α → β} {y : β} (h : Gave a (f <$> m) y) : ∃ x, Gave a m x ∧ f x = y := by
  rw [map_eq_pure_bind] at h
  obtain ⟨x, hx, hy⟩ := h.bind fun x => keeps_pure (f x)
  exact ⟨x, hx, hy.of_pure⟩

/-- A list of computations has given what each of them gave. -/
theorem Gave.mapM {f : α → Building β} (hf : ∀ x, Keeps (f x)) {xs : List α} {ys : List β}
    (h : Gave a (xs.mapM f) ys) : List.Forall₂ (fun x y => Gave a (f x) y) xs ys := by
  induction xs generalizing ys with
  | nil =>
    rw [List.mapM_nil] at h
    rw [← h.of_pure]
    exact .nil
  | cons x xs ih =>
    rw [List.mapM_cons] at h
    obtain ⟨y, hy, h⟩ := h.bind fun _ => (keeps_mapM hf xs).bind fun _ => keeps_pure _
    obtain ⟨ys, hys, h⟩ := h.bind fun _ => keeps_pure _
    rw [← h.of_pure]
    exact .cons hy (ih hys)

theorem Gave.of_ofExcept {e : Except Failure α} {x : α} (h : Gave a (ofExcept e) x) :
    e = .ok x := by
  obtain ⟨s, t, h, -⟩ := h
  cases e <;> cases h
  rfl

theorem Gave.of_add {node : SchemaNode} {id : NodeId} (h : Gave a (add node) id) :
    a.get id = node := by
  obtain ⟨s, t, h, ht⟩ := h
  cases h
  rw [Arena.get, ht s.size node (by rw [Arena.get?_push, if_pos rfl])]
  rfl

end Building

/-- The arena holds the node of a schema. -/
def Arena.Holds (a : Arena) (v : Json) (id : NodeId) : Prop :=
  ∃ location, Building.Gave a (Schema.classify v location) id

namespace Schema

open Building

/-! ### Forms -/

/-- The group of keywords that decides the kind of a schema. -/
inductive Form where
  | reference | object | array | plain | combination | empty
  deriving DecidableEq

/-- The declared type, and whether null is declared beside it; nothing where several are. -/
def declaration (fields : Assoc String Json) : Option String × Bool :=
  (declaredType fields "").toOption.getD (none, false)

/-- The place of a schema matters only where its type is not told. -/
theorem declaration_of_declaredType {fields : Assoc String Json} {location : String}
    {told : Option String × Bool} (h : declaredType fields location = .ok told) :
    declaration fields = told := by
  unfold declaration declaredType
  unfold declaredType at h
  split at h
  · cases h
    rfl
  · dsimp only at h ⊢
    split at h <;> cases h <;> rfl
  · cases h
    rfl

def form (fields : Assoc String Json) : Form :=
  let declared := (declaration fields).1
  if (text? fields "$ref").isSome then .reference
  else if isObject fields declared then .object
  else if isArray fields declared then .array
  else if (plainKind? fields declared).isSome then .plain
  else if (combination? fields).isSome then .combination
  else .empty

/-- The properties that an object declares, with their schemas. -/
def declaredProperties (fields : Assoc String Json) : Assoc String Json :=
  ((Assoc.get? fields "properties").bind Json.asObject?).getD []

/-- Whether an object may hold more than its properties. -/
def isOpen (fields : Assoc String Json) : Bool :=
  match Assoc.get? fields "additionalProperties" with
  | none | some .null | some (.bool false) => false
  | _ => true

def allowsNull (fields : Assoc String Json) : Bool :=
  (declaration fields).2 || flag fields "nullable" || flag fields "x-nullable"

def hasFlag (fields : Assoc String Json) (key : String) : Bool := (hintFlag? fields key).getD false

theorem bind_asObject?_eq_none {v : Option Json} (h : ∀ members, v ≠ some (.obj members)) :
    v.bind Json.asObject? = none := by
  match v with
  | none | some .null | some (.bool _) | some (.num _) | some (.str _) | some (.arr _) => rfl
  | some (.obj members) => exact absurd rfl (h members)

theorem bind_asArray?_eq_none {v : Option Json} (h : ∀ items, v ≠ some (.arr items)) :
    v.bind Json.asArray? = none := by
  match v with
  | none | some .null | some (.bool _) | some (.num _) | some (.str _) | some (.obj _) => rfl
  | some (.arr items) => exact absurd rfl (h items)

/-! ### What nodes say -/

/-- What the shape of an object says of the object. -/
structure ShapeTold (a : Arena) (fields : Assoc String Json) (shape : ObjectShape) : Prop where
  properties : Assoc.Alike a.Holds (declaredProperties fields) shape.properties
  required : shape.required = ((items? fields "required").getD []).filterMap Json.asString?
  allOf : List.Forall₂ a.Holds ((items? fields "allOf").getD []) shape.allOf
  additional : shape.additional.isSome = isOpen fields

/-- What a kind says of a schema of each form. -/
inductive KindTold (a : Arena) (fields : Assoc String Json) : Form → SchemaKind → Prop
  | reference {reference : String} (h : text? fields "$ref" = some reference) :
      KindTold a fields .reference (.reference (Pointer.componentName reference))
  | object {shape : ObjectShape} (h : ShapeTold a fields shape) :
      KindTold a fields .object (.object shape)
  | array {items : Option NodeId} (h : Option.Rel a.Holds (Assoc.get? fields "items") items) :
      KindTold a fields .array (.array items)
  | enum {primitive : Primitive} {literals : List Json}
      (h : plainKind? fields (declaration fields).1 = some (.enum primitive literals)) :
      KindTold a fields .plain (.enum primitive literals)
  | primitive {primitive : Primitive} {format : Option String}
      (h : plainKind? fields (declaration fields).1 = some (.primitive primitive format)) :
      KindTold a fields .plain (.primitive primitive format)
  | combination {how : Combination} {members : List Json} {ids : List NodeId}
      (h : combination? fields = some (how, members)) (hm : List.Forall₂ a.Holds members ids) :
      KindTold a fields .combination (.combination how ids)
  | empty : KindTold a fields .empty .empty

structure HintsTold (a : Arena) (fields : Assoc String Json) (hints : TypeHints) : Prop where
  isInterface : hints.isInterface = hintFlag? fields "isInterface"
  isGenericType : hints.isGenericType = hasFlag fields "isGenericType"
  isGenericTypeDefinition : hints.isGenericTypeDefinition = hasFlag fields "isGenericTypeDefinition"
  isGenericParameter : hints.isGenericParameter = hasFlag fields "isGenericParameter"
  genericTypeDefinition :
    Option.Rel a.Holds (hint? fields "genericTypeDefinition") hints.genericTypeDefinition
  genericArguments : List.Forall₂ a.Holds
    (((hint? fields "genericArguments").bind Json.asArray?).getD []) hints.genericArguments
  enumValues : ∃ location, namedConstants fields location = .ok hints.enumValues

/-- What a node says of a schema with these members. -/
structure NodeTold (a : Arena) (fields : Assoc String Json) (node : SchemaNode) : Prop where
  kind : KindTold a fields (form fields) node.kind
  hints : HintsTold a fields node.hints
  description : node.description = text? fields "description"
  nullable : node.nullable = allowsNull fields

/-! ### Reading -/

theorem keeps_classify (v : Json) (location : String) : Keeps (classify v location) :=
  (uniform_classify v location).keeps

theorem keeps_classifyAll (vs : List Json) (location : String) (index : Nat) :
    Keeps (classifyAll vs location index) :=
  (uniform_classifyAll vs location index).keeps

theorem keeps_ofExcept {α : Type} (x : Except Failure α) : Keeps (Building.ofExcept x) :=
  (uniform_ofExcept x).keeps

variable {a : Arena} {fields : Assoc String Json} {location : String}

theorem holds_of_classifyMembers {members : List (String × Json)} {ids : Assoc String NodeId}
    (h : Gave a (classifyMembers members location) ids) : Assoc.Alike a.Holds members ids := by
  induction members generalizing ids with
  | nil =>
    rw [classifyMembers] at h
    rw [← h.of_pure]
    exact .nil
  | cons member rest ih =>
    obtain ⟨name, v⟩ := member
    rw [classifyMembers] at h
    have hrest := (uniform_classifyMembers rest location).keeps
    obtain ⟨id, hid, h⟩ := h.bind fun _ => hrest.bind fun _ => keeps_pure _
    obtain ⟨ids, hids, h⟩ := h.bind fun _ => keeps_pure _
    rw [← h.of_pure]
    exact .cons ⟨rfl, _, hid⟩ (ih hids)

theorem holds_of_classifyAll {vs : List Json} {index : Nat} {ids : List NodeId}
    (h : Gave a (classifyAll vs location index) ids) : List.Forall₂ a.Holds vs ids := by
  induction vs generalizing index ids with
  | nil =>
    rw [classifyAll] at h
    rw [← h.of_pure]
    exact .nil
  | cons v rest ih =>
    rw [classifyAll] at h
    obtain ⟨id, hid, h⟩ := h.bind fun _ =>
      (keeps_classifyAll rest location (index + 1)).bind fun _ => keeps_pure _
    obtain ⟨ids, hids, h⟩ := h.bind fun _ => keeps_pure _
    rw [← h.of_pure]
    exact .cons ⟨_, hid⟩ (ih hids)

/-- What an object may hold beside its properties. -/
def classifyAdditional (fields : Assoc String Json) (location : String) :
    Building (Option Additional) :=
  match Assoc.get? fields "additionalProperties" with
  | none | some .null | some (.bool false) => pure none
  | some (.bool true) => pure (some .any)
  | some v => do pure (some (.schema (← classify v (location ++ ".additionalProperties"))))

/-- The three parts of an object. -/
theorem classifyObject_eq (fields : Assoc String Json) (location : String) :
    classifyObject fields location = (do
      let properties ← classifyProperties fields location
      let allOf ← classifyAll ((items? fields "allOf").getD []) (location ++ ".allOf") 0
      let additional ← classifyAdditional fields location
      pure {
        properties
        required := ((items? fields "required").getD []).filterMap Json.asString?
        allOf
        additional }) := by
  rw [classifyObject]
  refine congr (congrArg bind (classifyProperties_eq fields location).symm)
    (funext fun properties => congr (congrArg bind ?_) (funext fun allOf =>
      congrArg (· >>= _) ?_))
  · split
    · next members hm => rw [hm, Option.getD_some]
    · next hm => rw [hm, Option.getD_none, classifyAll]
  · unfold classifyAdditional
    cases Assoc.get? fields "additionalProperties" with
    | none => rfl
    | some v =>
      cases v with
      | bool b => cases b <;> rfl
      | null | num | str | arr | obj => rfl

theorem keeps_classifyAdditional (fields : Assoc String Json) (location : String) :
    Keeps (classifyAdditional fields location) := by
  unfold classifyAdditional
  split
  · exact keeps_pure none
  · exact keeps_pure none
  · exact keeps_pure none
  · exact keeps_pure (some Additional.any)
  · exact (keeps_classify _ _).bind fun _ => keeps_pure _

theorem isSome_of_classifyAdditional {additional : Option Additional}
    (h : Gave a (classifyAdditional fields location) additional) :
    additional.isSome = isOpen fields := by
  unfold classifyAdditional at h
  unfold isOpen
  generalize Assoc.get? fields "additionalProperties" = v at h ⊢
  match v, h with
  | none, h | some .null, h | some (.bool false), h | some (.bool true), h =>
    rw [← h.of_pure]
    rfl
  | some (.num _), h | some (.str _), h | some (.arr _), h | some (.obj _), h =>
    obtain ⟨id, -, h⟩ := h.bind fun _ => keeps_pure _
    rw [← h.of_pure]
    rfl

theorem holds_of_classifyProperties {ids : Assoc String NodeId}
    (h : Gave a (classifyProperties fields location) ids) :
    Assoc.Alike a.Holds (declaredProperties fields) ids := by
  unfold classifyProperties at h
  unfold declaredProperties
  split at h
  · next members hm =>
    rw [hm]
    exact holds_of_classifyMembers h
  · next hno =>
    rw [bind_asObject?_eq_none hno, ← h.of_pure]
    exact .nil

theorem told_of_classifyObject {shape : ObjectShape}
    (h : Gave a (classifyObject fields location) shape) : ShapeTold a fields shape := by
  have hallOf := keeps_classifyAll ((items? fields "allOf").getD []) (location ++ ".allOf") 0
  have hadditional := keeps_classifyAdditional fields location
  rw [classifyObject_eq] at h
  obtain ⟨properties, hproperties, h⟩ := h.bind fun _ =>
    hallOf.bind fun _ => hadditional.bind fun _ => keeps_pure _
  obtain ⟨allOf, hallOf, h⟩ := h.bind fun _ => hadditional.bind fun _ => keeps_pure _
  obtain ⟨additional, hadditional, h⟩ := h.bind fun _ => keeps_pure _
  rw [← h.of_pure]
  exact ⟨holds_of_classifyProperties hproperties, rfl, holds_of_classifyAll hallOf,
    isSome_of_classifyAdditional hadditional⟩

theorem told_of_plainKind? {kind : SchemaKind}
    (h : plainKind? fields (declaration fields).1 = some kind) :
    KindTold a fields .plain kind := by
  obtain ⟨primitive, -, hkind⟩ := Option.map_eq_some_iff.1 h
  split at hkind
  · subst hkind
    exact .enum h
  · subst hkind
    exact .primitive h

theorem told_of_classifyKind {kind : SchemaKind}
    (h : Gave a (classifyKind fields (declaration fields).1 location) kind) :
    KindTold a fields (form fields) kind := by
  rw [classifyKind] at h
  split at h
  · next reference href =>
    rw [show form fields = .reference by simp [form, href], ← h.of_pure]
    exact .reference href
  next href =>
  split at h
  · next hobject =>
    obtain ⟨shape, hshape, rfl⟩ := h.map
    rw [show form fields = .object by simp [form, href, hobject]]
    exact .object (told_of_classifyObject hshape)
  next hobject =>
  split at h
  · next harray =>
    rw [show form fields = .array by simp [form, href, hobject, harray]]
    split at h
    · next v hv =>
      obtain ⟨id, hid, h⟩ := h.bind fun _ => keeps_pure _
      rw [← h.of_pure]
      exact .array (hv ▸ .some ⟨_, hid⟩)
    · next hv =>
      rw [← h.of_pure]
      exact .array (hv ▸ .none)
  next harray =>
  split at h
  · next plain hplain =>
    rw [show form fields = .plain by simp [form, href, hobject, harray, hplain], ← h.of_pure]
    exact told_of_plainKind? hplain
  next hplain =>
  split at h
  · next how members hm =>
    obtain ⟨ids, hids, h⟩ := h.bind fun _ => keeps_pure _
    rw [show form fields = .combination by simp [form, href, hobject, harray, hplain, hm],
      ← h.of_pure]
    exact .combination hm (holds_of_classifyAll hids)
  · next hm =>
    rw [show form fields = .empty by simp [form, href, hobject, harray, hplain, hm], ← h.of_pure]
    exact .empty

theorem told_of_classifyHints {hints : TypeHints}
    (h : Gave a (classifyHints fields location) hints) : HintsTold a fields hints := by
  rw [classifyHints] at h
  obtain ⟨definition, hdefinition, h⟩ := h.bind fun _ => by
    refine Keeps.bind ?_ fun _ => (keeps_ofExcept _).bind fun _ => keeps_pure _
    split
    · exact keeps_classifyAll _ _ _
    · exact keeps_pure []
  obtain ⟨arguments, harguments, h⟩ := h.bind fun _ =>
    (keeps_ofExcept _).bind fun _ => keeps_pure _
  obtain ⟨enumValues, henum, h⟩ := h.bind fun _ => keeps_pure _
  rw [← h.of_pure]
  refine ⟨rfl, rfl, rfl, rfl, ?_, ?_, _, henum.of_ofExcept⟩
  · split at hdefinition
    · next v hv =>
      obtain ⟨id, hid, rfl⟩ := hdefinition.map
      rw [hv]
      exact .some ⟨_, hid⟩
    · next hv =>
      rw [hv, ← hdefinition.of_pure]
      exact .none
  · split at harguments
    · next vs hvs =>
      rw [hvs]
      exact holds_of_classifyAll harguments
    · next hno =>
      rw [bind_asArray?_eq_none hno, ← harguments.of_pure]
      exact .nil

theorem keeps_classifyKind (declared : Option String) :
    Keeps (classifyKind fields declared location) :=
  (uniform_classifyKind fields declared location).keeps

end Schema

namespace Arena.Holds

variable {a : Arena} {v : Json} {id : NodeId}

/-- The node of a schema says what its keywords do. -/
theorem told {fields : Assoc String Json} (h : a.Holds (.obj fields) id) :
    Schema.NodeTold a fields (a.get id) := by
  obtain ⟨location, h⟩ := h
  rw [Schema.classify] at h
  obtain ⟨⟨declared, nullable⟩, hdeclared, h⟩ := h.bind fun declared =>
    (Schema.uniform_classifyHints fields location).keeps.bind fun _ =>
      (Schema.keeps_classifyKind declared.1).bind fun _ => Building.keeps_add _
  obtain ⟨hints, hhints, h⟩ := h.bind fun _ =>
    (Schema.keeps_classifyKind declared).bind fun _ => Building.keeps_add _
  obtain ⟨kind, hkind, h⟩ := h.bind fun _ => Building.keeps_add _
  have hdeclaration := Schema.declaration_of_declaredType hdeclared.of_ofExcept
  rw [show declared = (Schema.declaration fields).1 by rw [hdeclaration]] at hkind
  rw [h.of_add]
  refine ⟨Schema.told_of_classifyKind hkind, Schema.told_of_classifyHints hhints, rfl, ?_⟩
  rw [Schema.allowsNull, hdeclaration]

/-- What is no object says nothing. -/
theorem get_of_not_object (h : a.Holds v id) (hv : ∀ fields, v ≠ .obj fields) :
    a.get id = {} := by
  obtain ⟨location, h⟩ := h
  rw [Schema.classify] at h
  · exact h.of_add
  · exact hv

end Arena.Holds

end TypedClient
