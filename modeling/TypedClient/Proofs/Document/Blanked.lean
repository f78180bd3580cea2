import TypedClient.Document.Upgrade
import TypedClient.Proofs.Schema.ReadAlike

/-! Documents with some responses of their operations blanked, none of them for code 200. A value
that is read for anything but its responses says the same before and after: of its members, those
that have been blanked are not read. References that avoid the blanked places lead to such values
again, so both documents follow them alike. -/

namespace TypedClient

namespace Json

/-! ### Places -/

/-- Places in a value, each told by the keys that lead there. -/
abbrev Places := List String → Bool

def Places.nowhere : Places := fun _ => false

/-- The places inside of the member under `key`. -/
def Places.below (S : Places) (key : String) : Places := fun path => S (key :: path)

mutual

/-- Null at the places, and all else as it is. Places are in objects only. -/
def blank (S : Places) : Json → Json
  | .obj fields => .obj (blankFields S fields)
  | v => v

def blankFields (S : Places) : List (String × Json) → List (String × Json)
  | [] => []
  | (key, v) :: rest =>
    (key, if S [key] then .null else blank (S.below key) v) :: blankFields S rest

end

mutual

/-- The references in a value, except for those that blanking takes away. -/
def references (S : Places) : Json → List String
  | .arr items => itemReferences items
  | .obj fields => fieldReferences S fields
  | _ => []

def itemReferences : List Json → List String
  | [] => []
  | v :: vs => references .nowhere v ++ itemReferences vs

def fieldReferences (S : Places) : List (String × Json) → List String
  | [] => []
  | (key, v) :: rest =>
    (if S [key] then []
      else (if key = "$ref" then v.asString?.toList else []) ++ references (S.below key) v) ++
      fieldReferences S rest

end

variable {S : Places} {v : Json} {fields : Assoc String Json} {items : List Json} {key : String}

/-- The member under `key` of a value that is blanked. -/
def blankMember (S : Places) (key : String) (v : Json) : Json :=
  if S [key] then .null else v.blank (S.below key)

theorem blankFields_eq_map (S : Places) (fields : List (String × Json)) :
    blankFields S fields = fields.map fun p => (p.1, blankMember S p.1 p.2) := by
  induction fields with
  | nil => rfl
  | cons p rest ih => rw [blankFields, ih]; rfl

theorem get?_blankFields (S : Places) (fields : Assoc String Json) (key : String) :
    Assoc.get? (blankFields S fields) key = (Assoc.get? fields key).map (blankMember S key) := by
  induction fields with
  | nil => rfl
  | cons p rest ih =>
    obtain ⟨first, v⟩ := p
    rw [blankFields, Assoc.get?, Assoc.get?]
    split
    · next hkey => subst hkey; rfl
    · exact ih

theorem get?_blank (S : Places) (v : Json) (key : String) :
    (v.blank S).get? key = (v.get? key).map (blankMember S key) := by
  cases v with
  | obj fields => exact get?_blankFields S fields key
  | null | bool | num | str | arr => rfl

mutual

theorem blank_nowhere (v : Json) : v.blank .nowhere = v := by
  match v with
  | .obj fields => rw [blank, blankFields_nowhere fields]
  | .null | .bool _ | .num _ | .str _ | .arr _ => rfl

theorem blankFields_nowhere (fields : List (String × Json)) :
    blankFields .nowhere fields = fields := by
  match fields with
  | [] => rfl
  | (key, v) :: rest =>
    rw [blankFields, blankFields_nowhere rest]
    exact congrArg (fun w => (key, w) :: rest) (blank_nowhere v)

end

theorem get?_blank_of_kept (hkey : S [key] = false) :
    (v.blank S).get? key = (v.get? key).map (blank (S.below key)) := by
  have hmember : blankMember S key = blank (S.below key) := by
    funext u
    rw [blankMember, hkey, if_neg Bool.false_ne_true]
  rw [get?_blank, hmember]

section Scalars

variable (S : Places) (v : Json)

theorem asString?_blank : (v.blank S).asString? = v.asString? := by cases v <;> rfl

theorem asBool?_blank : (v.blank S).asBool? = v.asBool? := by cases v <;> rfl

theorem asArray?_blank : (v.blank S).asArray? = v.asArray? := by cases v <;> rfl

theorem asObject?_blank : (v.blank S).asObject? = v.asObject?.map (blankFields S) := by
  cases v <;> rfl

end Scalars

/-! ### Parts are smaller than the whole -/

theorem size_lt_of_mem {fields : List (String × Json)} {p : String × Json} (h : p ∈ fields) :
    p.2.size < fieldSizes fields := by
  induction fields with
  | nil => exact absurd h List.not_mem_nil
  | cons q rest ih =>
    rw [fieldSizes]
    rcases List.mem_cons.1 h with rfl | h
    · omega
    · have hlt := ih h
      omega

theorem size_lt_of_item (h : v ∈ items) : v.size < sizes items := by
  induction items with
  | nil => cases h
  | cons w rest ih =>
    rw [sizes]
    rcases List.mem_cons.1 h with rfl | h
    · omega
    · have hlt := ih h
      omega

/-! ### References -/

theorem references_item (h : v ∈ items) : references .nowhere v ⊆ itemReferences items := by
  induction items with
  | nil => cases h
  | cons w rest ih =>
    rcases List.mem_cons.1 h with rfl | h
    · exact List.subset_append_left _ _
    · exact List.subset_append_of_subset_right _ (ih h)

theorem references_field (hkey : S [key] = false) (h : (key, v) ∈ fields) :
    (if key = "$ref" then v.asString?.toList else []) ++ references (S.below key) v ⊆
      fieldReferences S fields := by
  induction fields with
  | nil => cases h
  | cons p rest ih =>
    rcases List.mem_cons.1 h with rfl | h
    · rw [fieldReferences, hkey, if_neg Bool.false_ne_true]
      exact List.subset_append_left _ _
    · exact List.subset_append_of_subset_right _ (ih h)

theorem references_get? {u : Json} (h : v.get? key = some u) (hkey : S [key] = false) :
    references (S.below key) u ⊆ references S v := by
  cases v with
  | obj fields =>
    exact fun _ hr => references_field hkey (Assoc.mem_of_get? h) (List.mem_append_right _ hr)
  | null | bool | num | str | arr => cases h

theorem reference_mem_references {reference : String} (h : v.getString? "$ref" = some reference)
    (hkey : S ["$ref"] = false) : reference ∈ references S v := by
  obtain ⟨u, hget, hu⟩ := Option.bind_eq_some_iff.1 h
  cases v with
  | obj fields =>
    refine references_field hkey (Assoc.mem_of_get? hget) (List.mem_append_left _ ?_)
    rw [if_pos rfl, hu]
    exact List.mem_singleton.2 rfl
  | null | bool | num | str | arr => cases hget

end Json

/-! ### Pointers -/

namespace Pointer

open Json

/-- The segments of a decoded pointer. -/
def segments? : List Char → Option (List (List Char))
  | [] => some []
  | c :: rest => if c = '/' then some ((Text.pieces (· == '/') rest).map unescape) else none

/-- The way that a reference within the document takes. -/
def way? (reference : String) : Option (List (List Char)) :=
  match reference.toList with
  | [] => none
  | c :: pointer =>
    if c = '#' then
      (Text.decode? (percentDecode (Text.utf8 pointer))).toOption.bind fun decoded =>
        segments? decoded.toList
    else none

theorem walk_eq_segments? (root : Json) (pointer : List Char) :
    walk root pointer = (segments? pointer).bind (·.foldlM step root) := by
  cases pointer with
  | nil => rfl
  | cons c rest =>
    by_cases hc : c = '/'
    · subst hc
      rfl
    · rw [segments?, if_neg hc, walk]
      · rfl
      · simp
      · simp [hc]

theorem lookup_eq_way? (root : Json) (reference : String) :
    lookup root reference = (way? reference).bind (·.foldlM step root) := by
  unfold lookup way?
  cases reference.toList with
  | nil => rfl
  | cons c pointer =>
    by_cases hc : c = '#'
    · subst hc
      simp only [walk_eq_segments?, if_true]
      cases Text.decode? (percentDecode (Text.utf8 pointer)) <;> rfl
    · simp [hc]

/-- The reference leads neither through one of the places nor to an object that has one. -/
def Avoids (S : Places) (reference : String) : Prop :=
  ∀ segments, way? reference = some segments →
    (∀ start, start <+: segments.map String.ofList → S start = false) ∧
      ∀ key, S (segments.map String.ofList ++ [key]) = false

end Pointer

namespace Document

open Json

variable {S T : Places} {v w root : Json} {key : String}

/-! ### Other responses -/

/-- Whether a place is that of a response of an operation, for another code than 200. -/
def isOtherResponse (path : List String) : Bool :=
  match path.reverse with
  | code :: parent :: method :: _ =>
    code != "200" && parent == "responses" && (HttpMethod.ofName? method).isSome
  | _ => false

theorem isOtherResponse_of_short {path : List String} (h : path.length < 3) :
    isOtherResponse path = false := by
  rw [← List.length_reverse] at h
  unfold isOtherResponse
  match path.reverse, h with
  | [], _ | [_], _ | [_, _], _ => rfl

/-- The places are the ends of places of other responses. -/
def EndOther (T : Places) : Prop :=
  ∀ path, T path = true → ∃ start, isOtherResponse (start ++ path) = true

theorem EndOther.below (h : EndOther T) (key : String) : EndOther (T.below key) := by
  intro path hpath
  obtain ⟨start, hstart⟩ := h (key :: path) hpath
  exact ⟨start ++ [key], by simpa using hstart⟩

theorem endOther_nowhere : EndOther .nowhere := fun _ h => nomatch h

/-- Two keys above an end. -/
theorem EndOther.two (h : EndOther T) {code : String} (hT : T [key, code] = true) :
    key = "responses" ∧ code ≠ "200" := by
  obtain ⟨start, hstart⟩ := h _ hT
  unfold isOtherResponse at hstart
  rw [List.reverse_append] at hstart
  cases hreverse : start.reverse <;> simp_all

theorem EndOther.three (h : EndOther T) {method code : String}
    (hT : T [method, key, code] = true) : (HttpMethod.ofName? method).isSome = true := by
  obtain ⟨start, hstart⟩ := h _ hT
  unfold isOtherResponse at hstart
  simp only [List.reverse_append, List.reverse_cons, List.reverse_nil, List.nil_append,
    List.cons_append, Bool.and_eq_true] at hstart
  exact hstart.2

/-- The ends of places of other responses below something other than a list of responses. -/
structure Late (T : Places) : Prop where
  other : EndOther T
  inside : ∀ key, T [key] = false

theorem late_nowhere : Late .nowhere := ⟨endOther_nowhere, fun _ => rfl⟩

theorem Late.below (h : Late T) (hkey : key ≠ "responses") : Late (T.below key) where
  other := h.other.below key
  inside _ := Bool.eq_false_iff.2 fun hT => hkey (h.other.two hT).1

/-- Members of a member that is no operation. -/
theorem Late.below₂ (h : Late T) (hmethod : HttpMethod.ofName? key = none) (name : String) :
    Late ((T.below key).below name) where
  other := (h.other.below key).below name
  inside _ := Bool.eq_false_iff.2 fun hT => by
    have hsome := h.other.three hT
    rw [hmethod] at hsome
    cases hsome

/-- The response for code 200 is none of the others. -/
theorem Late.response (h : Late T) :
    T ["responses", "200"] = false ∧ Late ((T.below "responses").below "200") :=
  ⟨Bool.eq_false_iff.2 fun hT => (h.other.two hT).2 rfl, h.below₂ (by decide) "200"⟩

/-! ### Schemas -/

mutual

/-- No keyword of a schema is a list of responses, so the same schema is read. -/
theorem readAlike_blank {T : Places} (v : Json) (h : Late T) : Schema.ReadAlike v (v.blank T) := by
  match v with
  | .obj fields =>
    have hkeywords : ∀ key ∈ Schema.keywords, key ≠ "responses" := by decide
    refine Schema.SameKeywords.readAlike ⟨fun key hkey => ?_, ?_, fun location => ?_⟩
    · have hget : Assoc.get? (blankFields T fields) key = _ :=
        get?_blank_of_kept (v := .obj fields) (h.inside key)
      rw [hget, Json.get?, asObject?, Option.bind_some]
      cases hu : Assoc.get? fields key with
      | none => exact .none
      | some u =>
        have hlt := size_lt_of_get? hu
        refine .some ?_
        cases u with
        | obj members =>
          exact .schemas (readAlike_blank (.obj members) (h.below (hkeywords key hkey)))
        | null | bool | num | str | arr => exact .same _
    · rw [Assoc.has, Assoc.has, get?_blankFields, Option.isSome_map]
    · have hget : Assoc.get? (blankFields T fields) "properties" = _ :=
        get?_blank_of_kept (v := .obj fields) (h.inside "properties")
      unfold Schema.classifyProperties
      rw [hget, Json.get?, asObject?, Option.bind_some]
      cases hu : Assoc.get? fields "properties" with
      | none => rfl
      | some u =>
        cases u with
        | obj members =>
          have hlt := Schema.fieldSizes_lt_of_get? hu
          exact Schema.classifyMembers_congr (alike_blankFields members
            (h.below (by decide)).inside fun key => h.below₂ (by decide) key) location
        | null | bool | num | str | arr => rfl
  | .null | .bool _ | .num _ | .str _ | .arr _ => exact .refl _
termination_by v.size
decreasing_by all_goals simp only [Json.size] at *; omega

theorem alike_blankFields {T : Places} (fields : List (String × Json))
    (hkept : ∀ key, T [key] = false) (h : ∀ key, Late (T.below key)) :
    Assoc.Alike Schema.ReadAlike fields (blankFields T fields) := by
  match fields with
  | [] => exact .nil
  | (key, v) :: rest =>
    refine .cons ⟨rfl, ?_⟩ (alike_blankFields rest hkept h)
    rw [hkept key, if_neg Bool.false_ne_true]
    exact readAlike_blank v (h key)
termination_by Json.fieldSizes fields
decreasing_by all_goals simp only [Json.fieldSizes]; omega

end

/-! ### Values that say the same -/

/-- The second value is the first one with other responses blanked, and no reference that is left
leads to one of all those that are. -/
structure Blanks (S T : Places) (v w : Json) : Prop where
  late : Late T
  avoids : ∀ reference ∈ references T v, Pointer.Avoids S reference
  eq : w = v.blank T

def Blanked (S : Places) (v w : Json) : Prop := ∃ T, Blanks S T v w

/-- A value in which nothing is blanked. -/
theorem blanked_self (h : ∀ reference ∈ references .nowhere v, Pointer.Avoids S reference) :
    Blanked S v v := ⟨.nowhere, late_nowhere, h, (blank_nowhere v).symm⟩

/-- Members of an object that is blanked, where they are not blanked as a whole. -/
theorem blanked_member {fields : Assoc String Json}
    (h : ∀ reference ∈ references T (.obj fields), Pointer.Avoids S reference)
    (hmem : (key, v) ∈ fields) (hkey : T [key] = false) (hlate : Late (T.below key)) :
    Blanked S v (blankMember T key v) := by
  refine ⟨T.below key, hlate, fun reference hr => h reference ?_, ?_⟩
  · exact references_field hkey hmem (List.mem_append_right _ hr)
  · rw [blankMember, hkey, if_neg Bool.false_ne_true]

namespace Blanked

theorem get? (h : Blanked S v w) (hkey : key ≠ "responses") :
    Option.Rel (Blanked S) (v.get? key) (w.get? key) := by
  obtain ⟨T, hlate, havoids, rfl⟩ := h
  rw [get?_blank]
  cases hget : v.get? key with
  | none => exact .none
  | some u =>
    cases v with
    | obj fields =>
      exact .some (blanked_member havoids (Assoc.mem_of_get? hget) (hlate.inside key)
        (hlate.below hkey))
    | null | bool | num | str | arr => cases hget

theorem isSome_get? (h : Blanked S v w) (hkey : key ≠ "responses") :
    (v.get? key).isSome = (w.get? key).isSome := by
  have hget := h.get? hkey
  generalize v.get? key = u, w.get? key = u' at hget
  cases hget <;> rfl

theorem asString? (h : Blanked S v w) : v.asString? = w.asString? := by
  obtain ⟨T, -, -, rfl⟩ := h
  exact (asString?_blank T v).symm

theorem asBool? (h : Blanked S v w) : v.asBool? = w.asBool? := by
  obtain ⟨T, -, -, rfl⟩ := h
  exact (asBool?_blank T v).symm

theorem asArray? (h : Blanked S v w) : v.asArray? = w.asArray? := by
  obtain ⟨T, -, -, rfl⟩ := h
  exact (asArray?_blank T v).symm

section Texts

variable (h : Blanked S v w) (hkey : key ≠ "responses")

include h hkey

theorem getString? : v.getString? key = w.getString? key :=
  bind_eq_of_rel (h.get? hkey) Blanked.asString?

theorem getBool? : v.getBool? key = w.getBool? key :=
  bind_eq_of_rel (h.get? hkey) Blanked.asBool?

theorem getArray? : v.getArray? key = w.getArray? key :=
  bind_eq_of_rel (h.get? hkey) Blanked.asArray?

end Texts

theorem readAlike (h : Blanked S v w) : Schema.ReadAlike v w := by
  obtain ⟨T, hlate, -, rfl⟩ := h
  exact readAlike_blank v hlate

/-- The reference that a value consists of is left. -/
theorem avoids (h : Blanked S v w) {reference : String}
    (hreference : Pointer.reference? v = some reference) : Pointer.Avoids S reference := by
  obtain ⟨T, hlate, havoids, rfl⟩ := h
  exact havoids reference (reference_mem_references hreference (hlate.inside _))

/-- Items of lists are never blanked. -/
theorem items (h : Blanked S v w) {items : List Json} (hitems : v.asArray? = some items) :
    ∀ u ∈ items, Blanked S u u := by
  obtain ⟨T, -, havoids, rfl⟩ := h
  intro u hu
  cases v with
  | arr =>
    cases hitems
    exact blanked_self fun reference hr => havoids reference (references_item hu hr)
  | null | bool | num | str | obj => cases hitems

/-- The members of an object, each of them blanked inside. -/
theorem members (h : Blanked S v w) :
    List.Forall₂ (fun p q => p.1 = q.1 ∧ (p.1 ≠ "responses" → Blanked S p.2 q.2))
      (v.asObject?.getD []) (w.asObject?.getD []) := by
  obtain ⟨T, hlate, havoids, rfl⟩ := h
  rw [asObject?_blank]
  cases v with
  | obj fields =>
    show List.Forall₂ _ fields (blankFields T fields)
    rw [blankFields_eq_map, List.forall₂_map_right_iff, List.forall₂_same]
    exact fun p hp => ⟨rfl, fun hkey =>
      blanked_member havoids hp (hlate.inside p.1) (hlate.below hkey)⟩
  | null | bool | num | str | arr => exact .nil

/-- The members of a member that is no operation are blanked inside only, or as a whole where they
are other responses. -/
theorem entries (h : Blanked S v w) (hmethod : HttpMethod.ofName? key = none) :
    List.Forall₂ (fun p q => p.1 = q.1 ∧
        (Blanked S p.2 q.2 ∨ key = "responses" ∧ p.1 ≠ "200" ∧ q.2 = .null))
      ((v.getObject? key).getD []) ((w.getObject? key).getD []) := by
  obtain ⟨T, hlate, havoids, rfl⟩ := h
  rw [Json.getObject?, Json.getObject?, get?_blank_of_kept (hlate.inside key)]
  cases hget : v.get? key with
  | none => exact .nil
  | some u =>
    have hinside := references_get? hget (hlate.inside key)
    cases u with
    | obj fields =>
      show List.Forall₂ _ fields (blankFields (T.below key) fields)
      rw [blankFields_eq_map, List.forall₂_map_right_iff, List.forall₂_same]
      intro p hp
      cases hblank : T.below key [p.1] with
      | true =>
        obtain ⟨hkey, hcode⟩ := hlate.other.two hblank
        exact ⟨rfl, .inr ⟨hkey, hcode, by simp only [blankMember, hblank, if_true]⟩⟩
      | false =>
        exact ⟨rfl, .inl (blanked_member (fun reference hr => havoids reference (hinside hr)) hp
          hblank (hlate.below₂ hmethod p.1))⟩
    | null | bool | num | str | arr => exact .nil

/-- The members of a member that is neither an operation nor a list of responses. -/
theorem getObject? (h : Blanked S v w) (hkey : key ≠ "responses")
    (hmethod : HttpMethod.ofName? key = none) :
    Assoc.Alike (Blanked S) ((v.getObject? key).getD []) ((w.getObject? key).getD []) :=
  (h.entries hmethod).imp fun _ _ hp =>
    ⟨hp.1, hp.2.resolve_right fun hresponse => hkey hresponse.1⟩

/-- The responses of an operation. -/
theorem responses (h : Blanked S v w) :
    List.Forall₂ (fun p q => p.1 = q.1 ∧ (Blanked S p.2 q.2 ∨ p.1 ≠ "200" ∧ q.2 = .null))
      ((v.getObject? "responses").getD []) ((w.getObject? "responses").getD []) :=
  (h.entries (by decide)).imp fun _ _ hp => ⟨hp.1, hp.2.imp_right fun hresponse => hresponse.2⟩

/-- The response of an operation for code 200. -/
theorem response (h : Blanked S v w) :
    Option.Rel (Blanked S) ((v.get? "responses").bind (·.get? "200"))
      ((w.get? "responses").bind (·.get? "200")) := by
  obtain ⟨T, hlate, havoids, rfl⟩ := h
  obtain ⟨hkept, hresponse⟩ := hlate.response
  rw [get?_blank_of_kept (hlate.inside "responses")]
  cases hresponses : v.get? "responses" with
  | none => exact .none
  | some u =>
    rw [Option.map_some, Option.bind_some, Option.bind_some, get?_blank_of_kept hkept]
    cases hget : u.get? "200" with
    | none => exact .none
    | some u' =>
      refine .some ⟨_, hresponse, fun reference hr => havoids reference ?_, rfl⟩
      exact references_get? hresponses (hlate.inside _) (references_get? hget hkept hr)

end Blanked

/-! ### Following references -/

theorem step_blanked {segments : List (List Char)} (hother : EndOther T)
    (havoids : ∀ reference ∈ references T v, Pointer.Avoids S reference)
    (hway : ∀ start, start <+: segments.map String.ofList → start ≠ [] → T start = false)
    (hend : ∀ key, T (segments.map String.ofList ++ [key]) = false) :
    Option.Rel (Blanked S) (segments.foldlM Pointer.step v)
      (segments.foldlM Pointer.step (v.blank T)) := by
  induction segments generalizing T v with
  | nil => exact .some ⟨T, ⟨hother, hend⟩, havoids, rfl⟩
  | cons segment rest ih =>
    rw [List.foldlM_cons, List.foldlM_cons]
    cases v with
    | obj fields =>
      have hkept : T [String.ofList segment] = false := hway _ ⟨_, rfl⟩ (List.cons_ne_nil _ _)
      show Option.Rel _ (Json.get? (.obj fields) (String.ofList segment) >>= _)
        (Json.get? (blank T (.obj fields)) (String.ofList segment) >>= _)
      rw [get?_blank_of_kept hkept]
      cases hget : Json.get? (.obj fields) (String.ofList segment) with
      | none => exact .none
      | some u =>
        refine ih (hother.below _) (fun reference hr => havoids reference ?_)
          (fun start hstart _ => hway (_ :: start) ?_ (List.cons_ne_nil _ _)) hend
        · exact references_get? hget hkept hr
        · exact (List.cons_prefix_cons).2 ⟨rfl, hstart⟩
    | arr items =>
      show Option.Rel _ ((Pointer.position? segment).bind (items[·]?) >>= _)
        ((Pointer.position? segment).bind (items[·]?) >>= _)
      cases hitem : (Pointer.position? segment).bind (items[·]?) with
      | none => exact .none
      | some u =>
        obtain ⟨position, -, hposition⟩ := Option.bind_eq_some_iff.1 hitem
        have hmem := List.mem_of_getElem? hposition
        have hrest := ih (T := .nowhere) (v := u) endOther_nowhere
          (fun reference hr => havoids reference (references_item hmem hr))
          (fun _ _ _ => rfl) (fun _ => rfl)
        rwa [blank_nowhere] at hrest
    | null | bool | num | str => exact .none

/-- A document, of which the other responses that are blanked are not referred to from the rest. -/
structure Unreferenced (S : Places) (root : Json) : Prop where
  other : ∀ path, S path = true → isOtherResponse path = true
  avoids : ∀ reference ∈ references S root, Pointer.Avoids S reference

theorem lookup_blanked (h : Unreferenced S root) {reference : String}
    (havoids : Pointer.Avoids S reference) :
    Option.Rel (Blanked S) (Pointer.lookup root reference)
      (Pointer.lookup (root.blank S) reference) := by
  rw [Pointer.lookup_eq_way?, Pointer.lookup_eq_way?]
  cases hway : Pointer.way? reference with
  | none => exact .none
  | some segments =>
    obtain ⟨hthrough, hend⟩ := havoids segments hway
    exact step_blanked (fun path hpath => ⟨[], h.other path hpath⟩) h.avoids
      (fun start hstart _ => hthrough start hstart) hend

/-- References stand for the same in both documents, or lead nowhere in both. -/
theorem follow_blanked (h : Unreferenced S root) (hv : Blanked S v w) :
    ExceptSame (Blanked S) (Pointer.follow root v) (Pointer.follow (root.blank S) w) := by
  unfold Pointer.follow
  generalize Pointer.maxHops = n
  induction n generalizing v w with
  | zero => exact .error _
  | succ n ih =>
    rw [Pointer.followWithin, Pointer.followWithin]
    have hreference : Pointer.reference? v = Pointer.reference? w := hv.getString? (by decide)
    rw [← hreference]
    split
    · exact .ok hv
    · next reference hv' =>
      have hlookup := lookup_blanked h (hv.avoids hv')
      generalize Pointer.lookup root reference = u,
        Pointer.lookup (root.blank S) reference = u' at hlookup
      cases hlookup with
      | none => exact .error _
      | some hu => exact ih hu

end Document

end TypedClient
