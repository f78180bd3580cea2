import Mathlib.Logic.Relation
import TypedClient.Proofs.Outcome
import TypedClient.Proofs.Schema.ReadAlike

/-! Schemas in other spellings. A hint may have `x-` before its name, and null may be allowed by
`nullable`, by `x-nullable` or in the list of types. Such keywords are respelled in a schema or in
any schema inside of it, where schemas are read: neither the names of properties nor values that
are no schemas. Main statement: the same nodes are made of both, in the same places. -/

namespace TypedClient.Schema

/-- The keys that may have `x-` before them. -/
def hintKeys : List String :=
  ["isInterface", "isGenericType", "isGenericTypeDefinition", "isGenericParameter",
    "genericTypeDefinition", "genericArguments", "enumValues"]

/-- The keys under which a schema stands. -/
def schemaKeys : List String :=
  ["items", "additionalProperties", "genericTypeDefinition", "x-genericTypeDefinition"]

/-- The keys under which schemas stand in a list. -/
def listKeys : List String := ["allOf", "oneOf", "anyOf", "genericArguments", "x-genericArguments"]

/-- Objects with the same members under all keys but some. -/
def SameBut (keys : List String) (fields fields' : Assoc String Json) : Prop :=
  ∀ key ∉ keys, Assoc.get? fields key = Assoc.get? fields' key

/-- One keyword respelled, in a schema or in a schema inside of it. What is under keys that no
schema has may be anything. -/
inductive Respelled : Json → Json → Prop
  | hint {fields fields' : Assoc String Json} {key : String} {v : Json} (hkey : key ∈ hintKeys)
      (hold : Assoc.get? fields key = some v) (honly : Assoc.get? fields ("x-" ++ key) = none)
      (hnew : Assoc.get? fields' ("x-" ++ key) = some v) (hgone : Assoc.get? fields' key = none)
      (hsame : SameBut [key, "x-" ++ key] fields fields') : Respelled (.obj fields) (.obj fields')
  | nullable {fields fields' : Assoc String Json}
      (hold : Assoc.get? fields "nullable" = some (.bool true))
      (hnew : Assoc.get? fields' "x-nullable" = some (.bool true))
      (hgone : Assoc.get? fields' "nullable" = none)
      (hsame : SameBut ["nullable", "x-nullable"] fields fields') :
      Respelled (.obj fields) (.obj fields')
  | typeList {fields fields' : Assoc String Json} {type : String}
      (hold : Assoc.get? fields "type" = some (.str type))
      (hnull : Assoc.get? fields "nullable" = some (.bool true))
      (hnew : Assoc.get? fields' "type" = some (.arr [.str type, .str "null"]))
      (hgone : Assoc.get? fields' "nullable" = none)
      (hsame : SameBut ["type", "nullable"] fields fields') : Respelled (.obj fields) (.obj fields')
  | within {fields fields' : Assoc String Json} {key : String} {v v' : Json}
      (hkey : key ∈ schemaKeys) (hold : Assoc.get? fields key = some v)
      (hnew : Assoc.get? fields' key = some v') (h : Respelled v v')
      (hsame : SameBut [key] fields fields') : Respelled (.obj fields) (.obj fields')
  | among {fields fields' : Assoc String Json} {key : String} {before after : List Json}
      {v v' : Json} (hkey : key ∈ listKeys)
      (hold : Assoc.get? fields key = some (.arr (before ++ v :: after)))
      (hnew : Assoc.get? fields' key = some (.arr (before ++ v' :: after))) (h : Respelled v v')
      (hsame : SameBut [key] fields fields') : Respelled (.obj fields) (.obj fields')
  | property {fields fields' : Assoc String Json} {before after : List (String × Json)}
      {name : String} {v v' : Json}
      (hold : Assoc.get? fields "properties" = some (.obj (before ++ (name, v) :: after)))
      (hnew : Assoc.get? fields' "properties" = some (.obj (before ++ (name, v') :: after)))
      (h : Respelled v v') (hsame : SameBut ["properties"] fields fields') :
      Respelled (.obj fields) (.obj fields')
  | unread {fields fields' : Assoc String Json} {key : String}
      (hkey : key ∉ "properties" :: keywords) (hsame : SameBut [key] fields fields') :
      Respelled (.obj fields) (.obj fields')

/-! ### What does not change -/

/-- The keys that decide the kind of a schema, those of combinations apart. -/
def kindKeys : List String :=
  ["properties", "$ref", "additionalProperties", "items", "enum", "format", "required"]

def combinationKeys : List String := ["allOf", "oneOf", "anyOf"]

/-- The keys that tell the declared type, and whether null is allowed. -/
def typeKeys : List String := ["type", "nullable", "x-nullable"]

variable {fields fields' : Assoc String Json}

theorem rel_lists_refl (u : Option (List Json)) : Option.Rel (List.Forall₂ ReadAlike) u u :=
  rel_refl (fun _ => List.forall₂_same.2 fun v _ => .refl v) u

/-- Hints with the same values, but for the arguments. -/
theorem SameHints.of_arguments (h : ∀ key ∈ hintKeys, key ≠ "genericArguments" →
      hint? fields key = hint? fields' key)
    (harguments : Option.Rel (List.Forall₂ ReadAlike)
      ((hint? fields "genericArguments").bind Json.asArray?)
      ((hint? fields' "genericArguments").bind Json.asArray?)) : SameHints fields fields' where
  definition := by
    rw [h _ (by decide) (by decide)]
    exact rel_refl .refl _
  arguments := harguments
  constants location := by rw [namedConstants, namedConstants, h _ (by decide) (by decide)]
  flags key hkey := by
    rw [hintFlag?, hintFlag?, h key (by revert key; decide) (by revert key; decide)]

theorem SameHints.of_hint? (h : ∀ key ∈ hintKeys, hint? fields key = hint? fields' key) :
    SameHints fields fields' :=
  .of_arguments (fun key hkey _ => h key hkey) (by rw [h _ (by decide)]; exact rel_lists_refl _)

namespace SameBut

variable {keys : List String}

theorem of_filter (h : fields.filter (fun p => !keys.contains p.1) =
    fields'.filter fun p => !keys.contains p.1) : SameBut keys fields fields' := by
  have hget : ∀ {fields : Assoc String Json} {key}, key ∉ keys →
      Assoc.get? (fields.filter fun p => !keys.contains p.1) key = Assoc.get? fields key := by
    intro fields key hkey
    rw [Assoc.get?_filter _ (fun key => !keys.contains key), if_pos (by simpa using hkey)]
  intro key hkey
  rw [← hget hkey, h, hget hkey]

theorem get?_of_mem (h : SameBut keys fields fields') {others : List String}
    (hkeys : ∀ key ∈ keys, key ∉ others) {key : String} (hkey : key ∈ others) :
    Assoc.get? fields key = Assoc.get? fields' key :=
  h key fun hmem => hkeys key hmem hkey

theorem hints (h : SameBut keys fields fields')
    (hkeys : ∀ key ∈ keys, key ∉ hintKeys.flatMap fun key => [key, "x-" ++ key]) :
    SameHints fields fields' := by
  refine .of_hint? fun key hkey => ?_
  have hboth : ∀ k ∈ [key, "x-" ++ key], k ∈ hintKeys.flatMap fun key => [key, "x-" ++ key] :=
    fun k hk => List.mem_flatMap.2 ⟨key, hkey, hk⟩
  rw [hint?, hint?, h.get?_of_mem hkeys (hboth key (by simp)),
    h.get?_of_mem hkeys (hboth ("x-" ++ key) (by simp))]

/-- Schemas of the same kind, but for what is combined. -/
theorem kind_of_members (h : SameBut keys fields fields') (hkeys : ∀ key ∈ keys, key ∉ kindKeys)
    (hmembers : ∀ how : Combination, Option.Rel (List.Forall₂ ReadAlike)
      (items? fields how.name) (items? fields' how.name)) : SameKind fields fields' := by
  have hget : ∀ {key}, key ∈ kindKeys → Assoc.get? fields key = Assoc.get? fields' key :=
    h.get?_of_mem hkeys
  have hitems : ∀ {key}, key ∈ kindKeys → items? fields key = items? fields' key :=
    fun hkey => by rw [items?, items?, hget hkey]
  constructor
  · rw [text?, text?, hget (by decide)]
  · rw [Assoc.has, Assoc.has, hget (by decide)]
  · intro location
    rw [classifyProperties, classifyProperties, hget (by decide)]
  · rw [hget (by decide)]
    exact rel_refl .same _
  · rw [hget (by decide)]
    exact rel_refl .refl _
  · intro declared
    unfold plainKind? literals
    rw [hitems (by decide), text?, text?, hget (by decide)]
  · exact hmembers
  · exact hitems (by decide)

theorem kind (h : SameBut keys fields fields')
    (hkeys : ∀ key ∈ keys, key ∉ kindKeys ++ combinationKeys) : SameKind fields fields' := by
  refine h.kind_of_members (fun key hkey hk => hkeys key hkey (List.mem_append_left _ hk))
    fun how => ?_
  rw [items?, items?, h.get?_of_mem hkeys (by cases how <;> decide)]
  exact rel_lists_refl _

theorem readDeclaration (h : SameBut keys fields fields') (hkeys : ∀ key ∈ keys, key ∉ typeKeys)
    (location : String) : readDeclaration fields location = readDeclaration fields' location := by
  rw [Schema.readDeclaration, Schema.readDeclaration, declaredType, declaredType, flag, flag, flag,
    flag, h.get?_of_mem hkeys (show "type" ∈ typeKeys by decide),
    h.get?_of_mem hkeys (show "nullable" ∈ typeKeys by decide),
    h.get?_of_mem hkeys (show "x-nullable" ∈ typeKeys by decide)]

theorem description (h : SameBut keys fields fields') (hkeys : "description" ∉ keys) :
    text? fields "description" = text? fields' "description" := by
  rw [text?, text?, h _ hkeys]

end SameBut

/-! ### Hints -/

/-- A hint is found under its other name. -/
theorem hint?_of_respelled {key : String} {v : Json} (hkey : key ∈ hintKeys)
    (hold : Assoc.get? fields key = some v) (hnew : Assoc.get? fields' ("x-" ++ key) = some v)
    (hgone : Assoc.get? fields' key = none) (hsame : SameBut [key, "x-" ++ key] fields fields')
    {other : String} (hother : other ∈ hintKeys) : hint? fields other = hint? fields' other := by
  by_cases heq : other = key
  · subst heq
    rw [hint?, hint?, hold, hgone, hnew]
  · have hapart : ∀ key ∈ hintKeys, ∀ other ∈ hintKeys, other ≠ key →
        other ∉ [key, "x-" ++ key] ∧ "x-" ++ other ∉ [key, "x-" ++ key] := by decide
    obtain ⟨hplain, hprefixed⟩ := hapart key hkey other hother heq
    rw [hint?, hint?, hsame _ hplain, hsame _ hprefixed]

/-! ### Lists of schemas -/

/-- Values that may stand for each other where lists of schemas are read. -/
inductive Listed : Json → Json → Prop
  | same (v : Json) : Listed v v
  | schemas {vs vs' : List Json} (h : List.Forall₂ ReadAlike vs vs') :
      Listed (.arr vs) (.arr vs')

theorem Listed.asArray? {u u' : Option Json} (h : Option.Rel Listed u u') :
    Option.Rel (List.Forall₂ ReadAlike) (u.bind Json.asArray?) (u'.bind Json.asArray?) := by
  cases h with
  | none => exact .none
  | some h =>
    cases h with
    | same v => exact rel_lists_refl _
    | schemas h => exact .some h

/-- Schemas whose lists may stand for each other, and that have the same members otherwise. -/
theorem readAlike_of_listed (hlists : ∀ key, Option.Rel Listed (Assoc.get? fields key)
    (Assoc.get? fields' key)) (hsame : SameBut listKeys fields fields') :
    ReadAlike (.obj fields) (.obj fields') := by
  have hhint : ∀ key ∈ hintKeys, key ≠ "genericArguments" →
      hint? fields key = hint? fields' key := by
    intro key hkey hne
    have hapart : ∀ key ∈ hintKeys, key ≠ "genericArguments" →
        key ∉ listKeys ∧ "x-" ++ key ∉ listKeys := by decide
    obtain ⟨hplain, hprefixed⟩ := hapart key hkey hne
    rw [hint?, hint?, hsame _ hplain, hsame _ hprefixed]
  exact readAlike_of_parts (hsame.readDeclaration (by decide)) (hsame.description (by decide))
    (.of_arguments hhint (Listed.asArray? (hint?_rel (hlists _) (hlists _))))
    (hsame.kind_of_members (by decide) fun how => Listed.asArray? (hlists how.name))

/-! ### Whole schemas -/

theorem rel_of_sameBut {R : Json → Json → Prop} (hrefl : ∀ v, R v v) {key : String} {v v' : Json}
    (hold : Assoc.get? fields key = some v) (hnew : Assoc.get? fields' key = some v')
    (h : R v v') (hsame : SameBut [key] fields fields') (other : String) :
    Option.Rel R (Assoc.get? fields other) (Assoc.get? fields' other) := by
  by_cases heq : other = key
  · subst heq
    rw [hold, hnew]
    exact .some h
  · rw [hsame other (by simpa using heq)]
    exact rel_refl hrefl _

/-- The same is read of a schema in which a keyword is respelled. -/
theorem Respelled.readAlike {v v' : Json} (h : Respelled v v') : ReadAlike v v' := by
  induction h with
  | @hint fields fields' key v hkey hold _ hnew hgone hsame =>
    have hapart : ∀ key ∈ hintKeys, ∀ k ∈ [key, "x-" ++ key],
        k ∉ kindKeys ++ combinationKeys ∧ k ∉ typeKeys ∧ k ≠ "description" := by decide
    exact readAlike_of_parts (hsame.readDeclaration fun k hk => (hapart key hkey k hk).2.1)
      (hsame.description fun hk => (hapart key hkey _ hk).2.2 rfl)
      (.of_hint? fun other hother => hint?_of_respelled hkey hold hnew hgone hsame hother)
      (hsame.kind fun k hk => (hapart key hkey k hk).1)
  | @nullable fields fields' hold hnew hgone hsame =>
    refine readAlike_of_parts (fun location => ?_) (hsame.description (by decide))
      (hsame.hints (by decide)) (hsame.kind (by decide))
    rw [readDeclaration, readDeclaration, declaredType, declaredType, flag, flag, flag, flag, hold,
      hnew, hgone, hsame "type" (by decide)]
    simp [Json.asBool?]
  | @typeList fields fields' type hold hnull hnew hgone hsame =>
    refine readAlike_of_parts (fun location => ?_) (hsame.description (by decide))
      (hsame.hints (by decide)) (hsame.kind (by decide))
    rw [readDeclaration, readDeclaration, declaredType, declaredType, flag, flag, flag, flag, hold,
      hnew, hnull, hgone]
    by_cases htype : type = "null" <;> simp [Json.asBool?, Json.asString?, htype]
  | @within fields fields' key v v' hkey hold hnew h hsame ih =>
    have hv : Interchangeable v v' := by cases h <;> exact .schemas ih
    have hne : "properties" ≠ key := by
      rintro rfl
      exact absurd hkey (by decide)
    have hproperties := hsame "properties" (by simpa using hne)
    refine SameKeywords.readAlike ⟨fun k _ => rel_of_sameBut .same hold hnew hv hsame k, ?_,
      fun location => ?_⟩
    · rw [Assoc.has, Assoc.has, hproperties]
    · rw [classifyProperties, classifyProperties, hproperties]
  | @among fields fields' key before after v v' hkey hold hnew _ hsame ih =>
    refine readAlike_of_listed (rel_of_sameBut .same hold hnew (.schemas ?_) hsame)
      fun other hother => hsame other ?_
    · exact List.rel_append (List.forall₂_same.2 fun v _ => .refl v)
        (.cons ih (List.forall₂_same.2 fun v _ => .refl v))
    · rintro hmem
      exact hother (List.mem_singleton.1 hmem ▸ hkey)
  | @property fields fields' before after name v v' hold hnew _ hsame ih =>
    refine SameKeywords.readAlike ⟨fun k hk => ?_, ?_, fun location => ?_⟩
    · rw [hsame k (by rintro hmem; exact absurd (List.mem_singleton.1 hmem ▸ hk) (by decide))]
      exact rel_refl .same _
    · rw [Assoc.has, Assoc.has, hold, hnew]
      rfl
    · rw [classifyProperties, classifyProperties, hold, hnew]
      have hrefl : ∀ members : Assoc String Json, Assoc.Alike ReadAlike members members :=
        fun members => List.forall₂_same.2 fun p _ => ⟨rfl, .refl p.2⟩
      have hmembers : Assoc.Alike ReadAlike (before ++ (name, v) :: after)
          (before ++ (name, v') :: after) :=
        List.rel_append (hrefl before) (.cons ⟨rfl, ih⟩ (hrefl after))
      exact classifyMembers_congr hmembers location
  | @unread fields fields' key hkey hsame =>
    refine SameKeywords.readAlike (.of_get? fun k hk => hsame k ?_)
    rintro hmem
    exact hkey (List.mem_singleton.1 hmem ▸ hk)

/-- **However many keywords are respelled, at whatever depth, the same nodes are made in the same
places, or the same failure is given.** -/
theorem classify_respelled {v v' : Json} (h : Relation.EqvGen Respelled v v') (location : String)
    (arena : Arena) :
    outcome (classify v location) arena = outcome (classify v' location) arena := by
  have halike : ReadAlike v v' := by
    induction h with
    | rel _ _ h => exact h.readAlike
    | refl v => exact .refl v
    | symm _ _ _ ih => exact fun location => (ih location).symm
    | trans _ _ _ _ _ ih ih' => exact fun location => (ih location).trans (ih' location)
  rw [halike location]

/-- A page of animals, one of whose properties is called like a hint. -/
def page (generic : String) (label age : Json) : Json :=
  .obj [("type", .str "object"), (generic, .bool true), ("properties", .obj [
    ("isInterface", label), ("animals", .obj [("type", .str "array"), ("items", .obj [
      ("oneOf", .arr [.obj [("$ref", .str "Cat")], age])])])])]

theorem classify_respelled_page :
    let plain := page "isGenericType" (.obj [("type", .str "string"), ("nullable", .bool true)])
      (.obj [("type", .str "integer"), ("nullable", .bool true)])
    let respelled := page "x-isGenericType" (.obj [("type", .arr [.str "string", .str "null"])])
      (.obj [("type", .str "integer"), ("x-nullable", .bool true)])
    Relation.EqvGen Respelled plain respelled ∧
      (outcome (classify plain "Page") {}).1.toOption = some 5 ∧
      outcome (classify plain "Page") {} = outcome (classify respelled "Page") {} := by
  intro plain respelled
  have hgeneric : ∀ label age, Respelled (page "isGenericType" label age)
      (page "x-isGenericType" label age) := fun label age =>
    @Respelled.hint _ _ "isGenericType" _ (by decide) rfl rfl rfl rfl (.of_filter rfl)
  have hlabel : Respelled (.obj [("type", .str "string"), ("nullable", .bool true)])
      (.obj [("type", .arr [.str "string", .str "null"])]) :=
    .typeList rfl rfl rfl rfl (.of_filter rfl)
  have hage : Respelled (.obj [("type", .str "integer"), ("nullable", .bool true)])
      (.obj [("type", .str "integer"), ("x-nullable", .bool true)]) :=
    .nullable rfl rfl rfl (.of_filter rfl)
  have hlabels : ∀ age, Respelled (page "x-isGenericType" _ age) (page "x-isGenericType" _ age) :=
    fun age => @Respelled.property _ _ [] _ "isInterface" _ _ rfl rfl hlabel (.of_filter rfl)
  have hages : ∀ label,
      Respelled (page "x-isGenericType" label _) (page "x-isGenericType" label _) :=
    fun label => @Respelled.property _ _ [_] _ "animals" _ _ rfl rfl
      (@Respelled.within _ _ "items" _ _ (by decide) rfl rfl
        (@Respelled.among _ _ "oneOf" [_] _ _ _ (by decide) rfl rfl hage (.of_filter rfl))
        (.of_filter rfl)) (.of_filter rfl)
  have h : Relation.EqvGen Respelled plain respelled :=
    .trans _ _ _ (.rel _ _ (hgeneric _ _))
      (.trans _ _ _ (.rel _ _ (hlabels _)) (.rel _ _ (hages _)))
  exact ⟨h, by decide +kernel, classify_respelled h "Page" {}⟩

end TypedClient.Schema
