import TypedClient.Proofs.Alike
import TypedClient.Schema.Classify

/-! Values of which the same schema is read. A schema is told by the members under its keywords, so
neither other members nor the order of the members matter, and where a member is a schema itself
only what is read of it matters. -/

namespace TypedClient.Schema

/-- Values of which the same schema is read. -/
def ReadAlike (v v' : Json) : Prop := ∀ location, classify v location = classify v' location

theorem ReadAlike.refl (v : Json) : ReadAlike v v := fun _ => rfl

/-- What is no object is read as a schema that says nothing. -/
theorem classify_of_no_object {v : Json} (h : v.asObject? = none) (location : String) :
    classify v location = Building.add {} := by
  cases v with
  | obj => cases h
  | null | bool | num | str | arr => rw [classify]; simp

/-- Values that a keyword may have in place of each other: schemas of which the same is read. -/
inductive Interchangeable : Json → Json → Prop
  | same (v : Json) : Interchangeable v v
  | schemas {fields fields' : Assoc String Json} (h : ReadAlike (.obj fields) (.obj fields')) :
      Interchangeable (.obj fields) (.obj fields')

namespace Interchangeable

variable {v v' : Json} (h : Interchangeable v v')

include h

theorem readAlike : ReadAlike v v' := by
  cases h with
  | same => exact .refl _
  | schemas h => exact h

theorem asString? : v.asString? = v'.asString? := by cases h <;> rfl

theorem asBool? : v.asBool? = v'.asBool? := by cases h <;> rfl

theorem asArray? : v.asArray? = v'.asArray? := by cases h <;> rfl

theorem readEnumMembers : readEnumMembers v = Schema.readEnumMembers v' := by cases h <;> rfl

end Interchangeable

/-! ### Parts of a schema -/

/-- The properties of a schema. -/
def classifyProperties (fields : Assoc String Json) (location : String) :
    Building (Assoc String NodeId) :=
  match Assoc.get? fields "properties" with
  | some (.obj members) => classifyMembers members location
  | _ => pure []

theorem classifyProperties_eq (fields : Assoc String Json) (location : String) :
    classifyProperties fields location = match _ : Assoc.get? fields "properties" with
      | some (.obj members) => classifyMembers members location
      | _ => pure [] := by
  unfold classifyProperties
  generalize Assoc.get? fields "properties" = v
  match v with
  | some (.obj _) => rfl
  | none | some .null | some (.bool _) | some (.num _) | some (.str _) | some (.arr _) => rfl

theorem classifyMembers_congr {members members' : Assoc String Json}
    (h : Assoc.Alike ReadAlike members members') (location : String) :
    classifyMembers members location = classifyMembers members' location := by
  induction h with
  | nil => rfl
  | @cons p p' _ _ hp _ ih =>
    obtain ⟨name, v⟩ := p
    obtain ⟨name', v'⟩ := p'
    obtain ⟨rfl, hv⟩ := hp
    rw [classifyMembers, classifyMembers, hv, ih]

theorem classifyAll_congr {vs vs' : List Json} (h : List.Forall₂ ReadAlike vs vs')
    (location : String) (index : Nat) :
    classifyAll vs location index = classifyAll vs' location index := by
  induction h generalizing index with
  | nil => rfl
  | cons hv _ ih => rw [classifyAll, classifyAll, hv, ih]

/-- The generic arguments of a schema. -/
def classifyArguments (fields : Assoc String Json) (location : String) : Building (List NodeId) :=
  match (hint? fields "genericArguments").bind Json.asArray? with
  | some vs => classifyAll vs location 0
  | none => pure []

theorem classifyArguments_eq (fields : Assoc String Json) (location : String) :
    classifyArguments fields location = match _ : hint? fields "genericArguments" with
      | some (.arr vs) => classifyAll vs location 0
      | _ => pure [] := by
  unfold classifyArguments
  generalize hint? fields "genericArguments" = v
  match v with
  | some (.arr _) => rfl
  | none | some .null | some (.bool _) | some (.num _) | some (.str _) | some (.obj _) => rfl

/-- The declared type, and whether null is allowed by whatever keyword. -/
def readDeclaration (fields : Assoc String Json) (location : String) :
    Except Failure (Option String × Bool) :=
  (fun p => (p.1, p.2 || flag fields "nullable" || flag fields "x-nullable")) <$>
    declaredType fields location

theorem ofExcept_map {α β : Type} (f : α → β) (x : Except Failure α) :
    Building.ofExcept (f <$> x) = f <$> Building.ofExcept x := by
  cases x <;> rfl

theorem classify_eq (fields : Assoc String Json) (location : String) :
    classify (.obj fields) location = (do
      let (declared, nullable) ← Building.ofExcept (readDeclaration fields location)
      let hints ← classifyHints fields location
      let kind ← classifyKind fields declared location
      Building.add { kind, description := text? fields "description", nullable, hints }) := by
  rw [classify, readDeclaration, ofExcept_map, bind_map_left]

/-- What is read under the hints of a schema is the same. -/
structure SameHints (fields fields' : Assoc String Json) : Prop where
  definition : Option.Rel ReadAlike (hint? fields "genericTypeDefinition")
    (hint? fields' "genericTypeDefinition")
  arguments : Option.Rel (List.Forall₂ ReadAlike)
    ((hint? fields "genericArguments").bind Json.asArray?)
    ((hint? fields' "genericArguments").bind Json.asArray?)
  constants : ∀ location, namedConstants fields location = namedConstants fields' location
  flags : ∀ key ∈ ["isInterface", "isGenericType", "isGenericTypeDefinition",
    "isGenericParameter"], hintFlag? fields key = hintFlag? fields' key

/-- What decides the kind of a schema is the same, given what is declared. -/
structure SameKind (fields fields' : Assoc String Json) : Prop where
  reference : text? fields "$ref" = text? fields' "$ref"
  declares : Assoc.has fields "properties" = Assoc.has fields' "properties"
  properties : ∀ location, classifyProperties fields location = classifyProperties fields' location
  additional : Option.Rel Interchangeable (Assoc.get? fields "additionalProperties")
    (Assoc.get? fields' "additionalProperties")
  items : Option.Rel ReadAlike (Assoc.get? fields "items") (Assoc.get? fields' "items")
  plain : ∀ declared, plainKind? fields declared = plainKind? fields' declared
  members : ∀ how : Combination, Option.Rel (List.Forall₂ ReadAlike) (items? fields how.name)
    (items? fields' how.name)
  required : items? fields "required" = items? fields' "required"

section Parts

variable {fields fields' : Assoc String Json}

theorem has_of_rel {R : Json → Json → Prop} {key : String}
    (h : Option.Rel R (Assoc.get? fields key) (Assoc.get? fields' key)) :
    Assoc.has fields key = Assoc.has fields' key := by
  unfold Assoc.has
  generalize Assoc.get? fields key = u, Assoc.get? fields' key = u' at h
  cases h <;> rfl

theorem hint?_rel {R : Json → Json → Prop} {key : String}
    (h : Option.Rel R (Assoc.get? fields key) (Assoc.get? fields' key))
    (hx : Option.Rel R (Assoc.get? fields ("x-" ++ key)) (Assoc.get? fields' ("x-" ++ key))) :
    Option.Rel R (hint? fields key) (hint? fields' key) := by
  unfold hint?
  generalize Assoc.get? fields key = u, Assoc.get? fields' key = u' at h
  cases h with
  | none => exact hx
  | some hv => exact .some hv

theorem SameHints.classifyArguments (h : SameHints fields fields') (location : String) :
    classifyArguments fields location = Schema.classifyArguments fields' location := by
  have harguments := h.arguments
  unfold Schema.classifyArguments
  generalize (hint? fields "genericArguments").bind Json.asArray? = u,
    (hint? fields' "genericArguments").bind Json.asArray? = u' at harguments
  cases harguments with
  | none => rfl
  | some hvs => exact classifyAll_congr hvs _ 0

theorem SameHints.classifyHints (h : SameHints fields fields') (location : String) :
    classifyHints fields location = Schema.classifyHints fields' location := by
  have hdefinition := h.definition
  rw [Schema.classifyHints, Schema.classifyHints, h.constants, h.flags _ (by decide),
    h.flags _ (by decide), h.flags _ (by decide), h.flags _ (by decide)]
  generalize hint? fields "genericTypeDefinition" = u,
    hint? fields' "genericTypeDefinition" = u' at hdefinition
  congr 1
  · cases hdefinition with
    | none => rfl
    | some hv => exact congrArg (some <$> ·) (hv _)
  funext definition
  congr 1
  exact (classifyArguments_eq fields _).symm.trans
    ((h.classifyArguments _).trans (classifyArguments_eq fields' _))

theorem SameKind.classifyObject (h : SameKind fields fields') (location : String) :
    classifyObject fields location = Schema.classifyObject fields' location := by
  have hadditional := h.additional
  have hallOf : Option.Rel _ (items? fields "allOf") (items? fields' "allOf") := h.members .allOf
  rw [Schema.classifyObject, Schema.classifyObject, h.required]
  generalize Assoc.get? fields "additionalProperties" = u,
    Assoc.get? fields' "additionalProperties" = u' at hadditional
  generalize items? fields "allOf" = w, items? fields' "allOf" = w' at hallOf
  congr 1
  · exact (classifyProperties_eq fields location).symm.trans
      ((h.properties location).trans (classifyProperties_eq fields' location))
  funext properties
  congr 1
  · cases hallOf with
    | none => rfl
    | some hvs => exact classifyAll_congr hvs _ 0
  funext allOf
  congr 1
  cases hadditional with
  | none => rfl
  | some hv =>
    cases hv with
    | same => rfl
    | schemas hv => simp only [hv _]

/-- Both have members under the same combination first, or under none. -/
theorem SameKind.combination? (h : SameKind fields fields') :
    Option.Rel (fun p q => p.1 = q.1 ∧ List.Forall₂ ReadAlike p.2 q.2) (combination? fields)
      (combination? fields') := by
  unfold Schema.combination?
  refine findSome?_rel fun how _ => ?_
  have hmembers := h.members how
  generalize items? fields how.name = u, items? fields' how.name = u' at hmembers
  cases hmembers with
  | none => exact .none
  | some hvs =>
    cases hvs with
    | nil => exact .none
    | cons hv hvs => exact .some ⟨rfl, .cons hv hvs⟩

theorem SameKind.classifyKind (h : SameKind fields fields') (declared : Option String)
    (location : String) :
    classifyKind fields declared location = Schema.classifyKind fields' declared location := by
  have hitems := h.items
  have hcombination := h.combination?
  rw [Schema.classifyKind, Schema.classifyKind, isObject, isObject, isArray, isArray,
    h.reference, h.declares, has_of_rel h.additional, has_of_rel h.items, h.plain,
    h.classifyObject]
  generalize Assoc.get? fields "items" = u, Assoc.get? fields' "items" = u' at hitems
  generalize Schema.combination? fields = w, Schema.combination? fields' = w' at hcombination
  cases hcombination with
  | none =>
    cases hitems with
    | none => rfl
    | some hv => simp only [hv _]
  | @some p q hp =>
    obtain ⟨how, members⟩ := p
    obtain ⟨how', members'⟩ := q
    obtain ⟨rfl, hall⟩ := hp
    cases hitems with
    | none => simp only [classifyAll_congr hall]
    | some hv => simp only [hv _, classifyAll_congr hall]

/-- Schemas that declare the same, with the same hints and what decides their kinds. -/
theorem readAlike_of_parts
    (hdeclaration : ∀ location, readDeclaration fields location = readDeclaration fields' location)
    (hdescription : text? fields "description" = text? fields' "description")
    (hhints : SameHints fields fields') (hkind : SameKind fields fields') :
    ReadAlike (.obj fields) (.obj fields') := by
  intro location
  rw [classify_eq, classify_eq, hdeclaration, hhints.classifyHints, hdescription]
  simp only [hkind.classifyKind]

end Parts

/-! ### Keywords -/

/-- The keys of a schema whose members are read, those of its properties apart. -/
def keywords : List String :=
  ["$ref", "type", "description", "nullable", "x-nullable", "additionalProperties", "items", "enum",
    "format", "allOf", "oneOf", "anyOf", "required"] ++
  ["genericTypeDefinition", "genericArguments", "enumValues", "isInterface", "isGenericType",
    "isGenericTypeDefinition", "isGenericParameter"].flatMap fun key => [key, "x-" ++ key]

/-- Schemas with interchangeable members under keywords, and the same properties. -/
structure SameKeywords (fields fields' : Assoc String Json) : Prop where
  get? : ∀ key ∈ keywords,
    Option.Rel Interchangeable (Assoc.get? fields key) (Assoc.get? fields' key)
  declares : Assoc.has fields "properties" = Assoc.has fields' "properties"
  properties : ∀ location, classifyProperties fields location = classifyProperties fields' location

namespace SameKeywords

/-- It is enough that the members under the keywords are the same. -/
theorem of_get? {fields fields' : Assoc String Json}
    (h : ∀ key ∈ "properties" :: keywords, Assoc.get? fields key = Assoc.get? fields' key) :
    SameKeywords fields fields' where
  get? key hkey := by
    rw [h key (List.mem_cons_of_mem _ hkey)]
    exact rel_refl .same _
  declares := by rw [Assoc.has, Assoc.has, h _ List.mem_cons_self]
  properties location := by
    rw [classifyProperties, classifyProperties, h _ List.mem_cons_self]

variable {fields fields' : Assoc String Json} {location : String} (h : SameKeywords fields fields')

include h

theorem text? {key : String} (hkey : key ∈ keywords) : text? fields key = text? fields' key :=
  bind_eq_of_rel (h.get? key hkey) Interchangeable.asString?

theorem flag {key : String} (hkey : key ∈ keywords) : flag fields key = flag fields' key := by
  rw [Schema.flag, Schema.flag, bind_eq_of_rel (h.get? key hkey) Interchangeable.asBool?]

theorem items? {key : String} (hkey : key ∈ keywords) : items? fields key = items? fields' key :=
  bind_eq_of_rel (h.get? key hkey) Interchangeable.asArray?

theorem hint? {key : String} (hkey : key ∈ keywords) (hkey' : "x-" ++ key ∈ keywords) :
    Option.Rel Interchangeable (hint? fields key) (hint? fields' key) :=
  hint?_rel (h.get? key hkey) (h.get? _ hkey')

theorem hintFlag? {key : String} (hkey : key ∈ keywords) (hkey' : "x-" ++ key ∈ keywords) :
    hintFlag? fields key = hintFlag? fields' key :=
  bind_eq_of_rel (h.hint? hkey hkey') Interchangeable.asBool?

theorem declaredType : declaredType fields location = declaredType fields' location := by
  have hget := h.get? "type" (by decide)
  unfold Schema.declaredType
  generalize Assoc.get? fields "type" = u, Assoc.get? fields' "type" = u' at hget
  cases hget with
  | none => rfl
  | some hv => cases hv <;> rfl

theorem namedConstants : namedConstants fields location = namedConstants fields' location := by
  have hhint := h.hint? (show "enumValues" ∈ keywords by decide) (by decide)
  unfold Schema.namedConstants
  generalize Schema.hint? fields "enumValues" = u, Schema.hint? fields' "enumValues" = u' at hhint
  cases hhint with
  | none => rfl
  | some hv => simp only [hv.readEnumMembers]

theorem plainKind? (declared : Option String) :
    plainKind? fields declared = plainKind? fields' declared := by
  unfold Schema.plainKind? literals
  rw [h.items? (by decide), h.text? (by decide)]

theorem hints : SameHints fields fields' where
  definition := rel_imp (h.hint? (by decide) (by decide)) fun _ _ _ _ hv => hv.readAlike
  arguments := by
    rw [bind_eq_of_rel (h.hint? (by decide) (by decide)) Interchangeable.asArray?]
    exact rel_refl (fun vs => List.forall₂_same.2 fun v _ => .refl v) _
  constants _ := h.namedConstants
  flags key hkey := h.hintFlag? (by revert key; decide) (by revert key; decide)

theorem kind : SameKind fields fields' where
  reference := h.text? (by decide)
  declares := h.declares
  properties := h.properties
  additional := h.get? _ (by decide)
  items := rel_imp (h.get? _ (by decide)) fun _ _ _ _ hv => hv.readAlike
  plain := h.plainKind?
  members how := by
    rw [h.items? (by cases how <;> decide)]
    exact rel_refl (fun vs => List.forall₂_same.2 fun v _ => .refl v) _
  required := h.items? (by decide)

/-- The same schema is read of both. -/
theorem readAlike : ReadAlike (.obj fields) (.obj fields') := by
  refine readAlike_of_parts (fun location => ?_) (h.text? (by decide)) h.hints h.kind
  rw [readDeclaration, readDeclaration, h.declaredType, h.flag (by decide), h.flag (by decide)]

end SameKeywords

end TypedClient.Schema
