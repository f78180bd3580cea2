import Mathlib.Data.List.Nodup
import TypedClient.Proofs.Document.Blanked
import TypedClient.Proofs.Document.Reordered
import TypedClient.Proofs.Pointer.Followed
import TypedClient.Proofs.Schema.ReadAlike

/-! Documents with another name for a schema, as they are written: the name is declared among the
named schemas as a reference to the schema, and references to the schema may go to the name. What
stands under a key, or behind a reference, differs in no more than that, and a chain of references
that takes the new name on its way is by one longer. -/

namespace TypedClient

namespace Json

variable {R : String → String → Prop} {under key : String} {v w u : Json}

/-! ### Values with other references -/

/-- Keywords of lists that hold no schemas: what is called `$ref` in there is no reference. -/
def literalKeys : List String := ["enum", "enumValues", "x-enumValues"]

/-- The second value is the first one with other references, where `R` tells which may stand for
which. The key under which a value stands tells whether it is a reference. -/
inductive Redirected (R : String → String → Prop) : String → Json → Json → Prop
  | scalar {under : String} {v : Json} (hobject : v.asObject? = none) (harray : v.asArray? = none)
      (hreference : under = "$ref" → v.asString? = none) : Redirected R under v v
  | literals {under : String} (hunder : under ∈ literalKeys) {items : List Json}
      (h : ∀ v ∈ items, Redirected R "" v v) : Redirected R under (.arr items) (.arr items)
  | reference {s t : String} (h : R s t) : Redirected R "$ref" (.str s) (.str t)
  | list {under : String} {items items' : List Json} (hunder : under ∉ literalKeys)
      (h : List.Forall₂ (Redirected R "") items items') :
      Redirected R under (.arr items) (.arr items')
  | object {under : String} {fields fields' : List (String × Json)}
      (hkeys : List.Forall₂ (fun p q => p.1 = q.1) fields fields')
      (hvalues : ∀ m ∈ fields.zip fields', Redirected R m.1.1 m.1.2 m.2.2) :
      Redirected R under (.obj fields) (.obj fields')

/-- Members under the same keys, with other references. -/
def RedirectedMembers (R : String → String → Prop) :
    List (String × Json) → List (String × Json) → Prop :=
  List.Forall₂ fun p q => p.1 = q.1 ∧ Redirected R p.1 p.2 q.2

section Members

variable {fields fields' : Assoc String Json}

theorem RedirectedMembers.object (h : RedirectedMembers R fields fields') :
    Redirected R under (.obj fields) (.obj fields') :=
  .object (h.imp fun _ _ hpq => hpq.1) fun _ hm => ((List.forall₂_iff_zip.1 h).2 hm).2

theorem Redirected.single (h : Redirected R key v w) :
    Redirected R under (.obj [(key, v)]) (.obj [(key, w)]) :=
  RedirectedMembers.object (.cons ⟨rfl, h⟩ .nil)

theorem members_of_redirected (hkeys : List.Forall₂ (fun p q => p.1 = q.1) fields fields')
    (hvalues : ∀ m ∈ fields.zip fields', Redirected R m.1.1 m.1.2 m.2.2) :
    RedirectedMembers R fields fields' := by
  obtain ⟨hlength, hkeys⟩ := List.forall₂_iff_zip.1 hkeys
  exact List.forall₂_iff_zip.2 ⟨hlength, fun hm => ⟨hkeys hm, hvalues _ hm⟩⟩

theorem RedirectedMembers.keys (h : RedirectedMembers R fields fields') :
    Assoc.keys fields = Assoc.keys fields' :=
  map_eq_of_forall₂ h fun _ _ hpq => hpq.1

theorem RedirectedMembers.get? (h : RedirectedMembers R fields fields') (key : String) :
    Option.Rel (Redirected R key) (Assoc.get? fields key) (Assoc.get? fields' key) := by
  induction h with
  | nil => exact .none
  | @cons p q _ _ hpq _ ih =>
    obtain ⟨k, u⟩ := p
    obtain ⟨k', u'⟩ := q
    obtain ⟨rfl, hu⟩ := hpq
    rw [Assoc.get?, Assoc.get?]
    split
    · next hkey =>
      subst hkey
      exact .some hu
    · exact ih

end Members

/-- A value stays as it is where each of its references may stand for itself. -/
theorem redirected_self {under : String} {v : Json} (h : ∀ s ∈ v.references .nowhere, R s s)
    (hv : under = "$ref" → ∀ s ∈ v.asString?, R s s) : Redirected R under v v := by
  match v with
  | .null | .bool _ | .num _ => exact .scalar rfl rfl fun _ => rfl
  | .str s =>
    by_cases hunder : under = "$ref"
    · subst hunder
      exact .reference (hv rfl s rfl)
    · exact .scalar rfl rfl fun heq => absurd heq hunder
  | .arr items =>
    have hitems : ∀ u ∈ items, Redirected R "" u u := fun u hu =>
      have hlt := size_lt_of_item hu
      redirected_self (fun s hs => h s (references_item hu hs)) (by simp)
    by_cases hunder : under ∈ literalKeys
    · exact .literals hunder hitems
    · exact .list hunder (List.forall₂_same.2 hitems)
  | .obj fields =>
    refine RedirectedMembers.object (List.forall₂_same.2 fun p hp => ⟨rfl, ?_⟩)
    have hlt := size_lt_of_mem hp
    have hfield := references_field (S := .nowhere) rfl hp
    refine redirected_self (fun s hs => h s (hfield (List.mem_append_right _ hs))) fun hkey s hs => ?_
    refine h s (hfield (List.mem_append_left _ ?_))
    rw [if_pos hkey]
    exact Option.mem_toList.2 hs
termination_by v.size
decreasing_by all_goals simp only [Json.size]; omega

/-! ### What is found in them -/

namespace Redirected

theorem asString? (h : Redirected R under v w) (hunder : under ≠ "$ref") :
    v.asString? = w.asString? := by
  cases h with
  | reference => exact absurd rfl hunder
  | scalar | literals | list | object => rfl

theorem asBool? (h : Redirected R under v w) : v.asBool? = w.asBool? := by cases h <;> rfl

theorem asString?_reference (h : Redirected R "$ref" v w) :
    Option.Rel R v.asString? w.asString? := by
  cases h with
  | reference h => exact .some h
  | scalar _ _ hreference =>
    rw [hreference rfl]
    exact .none
  | literals | list | object => exact .none

theorem asArray? (h : Redirected R under v w) (hunder : under ∉ literalKeys) :
    Option.Rel (List.Forall₂ (Redirected R "")) v.asArray? w.asArray? := by
  cases h with
  | scalar _ harray =>
    rw [harray]
    exact .none
  | literals hliteral => exact absurd hliteral hunder
  | reference | object => exact .none
  | list _ h => exact .some h

theorem literals_eq (h : Redirected R under v w) (hunder : under ∈ literalKeys) :
    v.asArray? = w.asArray? := by
  cases h with
  | scalar | literals | reference | object => rfl
  | list hliteral => exact absurd hunder hliteral

theorem members (h : Redirected R under v w) :
    RedirectedMembers R (v.asObject?.getD []) (w.asObject?.getD []) := by
  cases h with
  | scalar hobject =>
    rw [hobject]
    exact .nil
  | literals | reference | list => exact .nil
  | object hkeys hvalues => exact members_of_redirected hkeys hvalues

end Redirected

/-- Under names that are given in their order, a list stands for an object. -/
theorem zip_redirected (names : List String) {items items' : List Json}
    (h : List.Forall₂ (Redirected R "") items items') :
    List.Forall₂ (fun m m' => m.1 = m'.1 ∧ Redirected R "" m.2 m'.2) (names.zip items)
      (names.zip items') := by
  induction names generalizing items items' with
  | nil => exact .nil
  | cons name names ih =>
    cases h with
    | nil => exact .nil
    | cons hv hrest => exact .cons ⟨rfl, hv⟩ (ih hrest)

/-- No text of a list is a reference. -/
theorem texts_redirected {items items' : List Json}
    (h : List.Forall₂ (Redirected R "") items items') :
    items.filterMap Json.asString? = items'.filterMap Json.asString? := by
  rw [← List.forall₂_eq_eq_eq]
  refine List.rel_filterMap (fun v w hvw => ?_) h
  rw [hvw.asString? (by decide)]
  exact rel_refl (fun _ => rfl) _

/-! ### Values of which the same is read -/

/-- The words by which members of objects are read. -/
def readKeys : List String :=
  ["$ref", "schema", "description", "required", "name", "in", "content", "parameters", "responses",
    "200", "requestBody", "tags", "operationId", "summary", "x-limit", "consumes", "produces", "paths",
    "swagger", "openapi", "properties"] ++ Schema.keywords

theorem not_mem_layoutKeys (h : key ∈ readKeys) : key ∉ layoutKeys := by
  have hall : ∀ key ∈ readKeys, key ∉ layoutKeys := by decide +kernel
  exact hall key h

/-- No member of an object is read under this key: it is no keyword and no method. -/
def Ignored (key : String) : Prop := key ∉ readKeys ∧ HttpMethod.ofName? key = none

instance : DecidablePred Ignored := fun _ => inferInstanceAs (Decidable (_ ∧ _))

/-- Members with other references, except under keys that lead to the named schemas of a document;
there may be more of them that are not read. -/
inductive NearMembers (R : String → String → Prop) :
    List (String × Json) → List (String × Json) → Prop
  | nil : NearMembers R [] []
  | cons {p q : String × Json} {ms ms' : List (String × Json)} (hkey : p.1 = q.1)
      (h : p.1 ∈ layoutKeys ∨ Redirected R p.1 p.2 q.2) (hrest : NearMembers R ms ms') :
      NearMembers R (p :: ms) (q :: ms')
  | more {p : String × Json} {ms ms' : List (String × Json)} (hp : Ignored p.1)
      (hrest : NearMembers R ms ms') : NearMembers R ms (p :: ms')

/-- Values that differ in references only, as far as they are read for what they are themselves: the
ways from them to named schemas are passed over, and so is what is not read. -/
inductive Near (R : String → String → Prop) : Json → Json → Prop
  | object {fields fields' : Assoc String Json} (h : NearMembers R fields fields') :
      Near R (.obj fields) (.obj fields')
  | other {v w : Json} (hv : v.asObject? = none) (hw : w.asObject? = none) : Near R v w

theorem RedirectedMembers.near {fields fields' : Assoc String Json}
    (h : RedirectedMembers R fields fields') : NearMembers R fields fields' := by
  induction h with
  | nil => exact .nil
  | cons hpq _ ih => exact .cons hpq.1 (.inr hpq.2) ih

theorem Redirected.near (h : Redirected R under v w) : Near R v w := by
  cases h with
  | scalar hobject => exact .other hobject hobject
  | literals | reference | list => exact .other rfl rfl
  | object hkeys hvalues => exact .object (members_of_redirected hkeys hvalues).near

namespace NearMembers

variable {fields fields' : Assoc String Json}

theorem append {rest rest' : Assoc String Json} (h : NearMembers R fields fields')
    (hrest : NearMembers R rest rest') : NearMembers R (fields ++ rest) (fields' ++ rest') := by
  induction h with
  | nil => exact hrest
  | cons hkey h _ ih => exact .cons hkey h ih
  | more hp _ ih => exact .more hp ih

theorem get? (h : NearMembers R fields fields') (hkey : key ∈ readKeys) :
    Option.Rel (Redirected R key) (Assoc.get? fields key) (Assoc.get? fields' key) := by
  induction h with
  | nil => exact .none
  | @cons p q _ _ hsame hu _ ih =>
    obtain ⟨k, u⟩ := p
    obtain ⟨k', u'⟩ := q
    cases hsame
    rw [Assoc.get?, Assoc.get?]
    split
    · next heq =>
      subst heq
      exact .some (hu.resolve_left (not_mem_layoutKeys hkey))
    · exact ih
  | @more p _ _ hp _ ih =>
    rw [Assoc.get?, if_neg]
    · exact ih
    · rintro rfl
      exact hp.1 hkey

theorem filter (h : NearMembers R fields fields') (wanted : String → Bool) :
    NearMembers R (fields.filter fun p => wanted p.1) (fields'.filter fun p => wanted p.1) := by
  induction h with
  | nil => exact .nil
  | cons hkey h _ ih =>
    rw [List.filter_cons, List.filter_cons, ← hkey]
    split
    · exact .cons hkey h ih
    · exact ih
  | more hp _ ih =>
    rw [List.filter_cons]
    split
    · exact .more hp ih
    · exact ih

/-- Members that are named for methods stand under the same keys. -/
theorem methods (h : NearMembers R fields fields') :
    RedirectedMembers R (fields.filter fun p => (HttpMethod.ofName? p.1).isSome)
      (fields'.filter fun p => (HttpMethod.ofName? p.1).isSome) := by
  have hlayout : ∀ key ∈ layoutKeys, HttpMethod.ofName? key = none := by decide
  induction h with
  | nil => exact .nil
  | cons hkey h _ ih =>
    rw [List.filter_cons, List.filter_cons, ← hkey]
    split
    · next hmethod =>
      refine .cons ⟨hkey, h.resolve_left fun hmem => ?_⟩ ih
      rw [hlayout _ hmem] at hmethod
      cases hmethod
    · exact ih
  | more hp _ ih =>
    rwa [List.filter_cons, hp.2, if_neg (by decide)]

end NearMembers

namespace Near

variable (h : Near R v w)

include h

theorem members : NearMembers R (v.asObject?.getD []) (w.asObject?.getD []) := by
  cases h with
  | object h => exact h
  | other hv hw =>
    rw [hv, hw]
    exact .nil

theorem get? (hkey : key ∈ readKeys) :
    Option.Rel (Redirected R key) (v.get? key) (w.get? key) := by
  have hget := h.members.get? hkey
  have hmember : ∀ u : Json, Assoc.get? (u.asObject?.getD []) key = u.get? key := by
    intro u
    rw [Json.get?]
    cases u.asObject? <;> rfl
  rwa [hmember, hmember] at hget

theorem reference? : Option.Rel R (Pointer.reference? v) (Pointer.reference? w) := by
  have hget := h.get? (show "$ref" ∈ readKeys by decide)
  unfold Pointer.reference? Json.getString?
  generalize v.get? "$ref" = u, w.get? "$ref" = u' at hget
  cases hget with
  | none => exact .none
  | some hu => exact hu.asString?_reference

section Keys

variable (hkey : key ∈ readKeys)

include hkey

theorem getString? (hreference : key ≠ "$ref") : v.getString? key = w.getString? key :=
  bind_eq_of_rel (h.get? hkey) fun hu => hu.asString? hreference

theorem getBool? : v.getBool? key = w.getBool? key :=
  bind_eq_of_rel (h.get? hkey) Redirected.asBool?

theorem isSome_get? : (v.get? key).isSome = (w.get? key).isSome := by
  have hget := h.get? hkey
  generalize v.get? key = u, w.get? key = u' at hget
  cases hget <;> rfl

theorem getArray? (hliteral : key ∉ literalKeys) :
    List.Forall₂ (Redirected R "") ((v.getArray? key).getD []) ((w.getArray? key).getD []) := by
  have hget := h.get? hkey
  unfold Json.getArray?
  generalize v.get? key = u, w.get? key = u' at hget
  cases hget with
  | none => exact .nil
  | @some u u' hu =>
    have harray := hu.asArray? hliteral
    rw [Option.bind_some, Option.bind_some]
    generalize u.asArray? = x, u'.asArray? = x' at harray
    cases harray with
    | none => exact .nil
    | some hitems => exact hitems

theorem getObject? :
    RedirectedMembers R ((v.getObject? key).getD []) ((w.getObject? key).getD []) := by
  have hget := h.get? hkey
  unfold Json.getObject?
  generalize v.get? key = u, w.get? key = u' at hget
  cases hget with
  | none => exact .nil
  | some hu => exact hu.members

end Keys

end Near

/-! ### Another member -/

/-- Other references, and in the object at `path`, whose keys are distinct, the member `added`. -/
inductive Extended (R : String → String → Prop) (added : String × Json) :
    List String → Json → Json → Prop
  | here {before before' after after' : Assoc String Json}
      (hkeys : (Assoc.keys (before ++ added :: after)).Nodup)
      (hbefore : RedirectedMembers R before before') (hafter : RedirectedMembers R after after') :
      Extended R added [] (.obj (before ++ after)) (.obj (before' ++ added :: after'))
  | under {before before' after after' : Assoc String Json} {key : String} {path : List String}
      {v v' : Json} (hfirst : key ∉ Assoc.keys before) (hbefore : RedirectedMembers R before before')
      (hafter : RedirectedMembers R after after') (h : Extended R added path v v') :
      Extended R added (key :: path) (.obj (before ++ (key, v) :: after))
        (.obj (before' ++ (key, v') :: after'))

variable {added : String × Json} {path : List String}

/-- An object that holds the changed one further inside is near to what it became. -/
theorem Extended.near (h : Extended R added (key :: path) v w) (hkey : key ∈ layoutKeys) :
    Near R v w := by
  cases h with
  | under _ hbefore hafter h =>
    exact .object (hbefore.near.append (.cons rfl (.inl hkey) hafter.near))

/-- Where the new member is not read, the object that has it is near to what it was. -/
theorem Extended.near_of_ignored (h : Extended R added [] v w) (hadded : Ignored added.1) :
    Near R v w := by
  cases h with
  | here _ hbefore hafter => exact .object (hbefore.near.append (.more hadded hafter.near))

theorem Extended.get?_under (h : Extended R added (key :: path) v w) :
    ∃ u u', v.get? key = some u ∧ w.get? key = some u' ∧ Extended R added path u u' := by
  cases h with
  | @under before before' after after' _ _ u u' hfirst hbefore hafter h =>
    have hfirst' : key ∉ Assoc.keys before' := hbefore.keys ▸ hfirst
    refine ⟨u, u', ?_, ?_, h⟩
    · show Assoc.get? (before ++ (key, u) :: after) key = _
      rw [Assoc.get?_append, Assoc.get?_eq_none_iff.2 hfirst, Assoc.get?, if_pos rfl]
      rfl
    · show Assoc.get? (before' ++ (key, u') :: after') key = _
      rw [Assoc.get?_append, Assoc.get?_eq_none_iff.2 hfirst', Assoc.get?, if_pos rfl]
      rfl

theorem get?_insert_of_ne {before after : Assoc String Json} {other : String} (hne : key ≠ other) :
    Assoc.get? (before ++ (key, u) :: after) other = Assoc.get? (before ++ after) other := by
  rw [Assoc.get?_append, Assoc.get?_append, Assoc.get?, if_neg hne]

/-- What is found beside the way to the changed object is found with other references. -/
theorem Extended.get?_beside (h : Extended R added path v w) {other : String}
    (hother : path.head? ≠ some other) (hu : v.get? other = some u) :
    ∃ u', w.get? other = some u' ∧ Redirected R other u u' := by
  have hfound : ∀ {before before' after after' : Assoc String Json},
      RedirectedMembers R before before' → RedirectedMembers R after after' →
      Assoc.get? (before ++ after) other = some u →
      ∃ u', Assoc.get? (before' ++ after') other = some u' ∧ Redirected R other u u' := by
    intro before before' after after' hbefore hafter hu
    have hrel := RedirectedMembers.get? (List.rel_append hbefore hafter) other
    rw [hu] at hrel
    generalize Assoc.get? (before' ++ after') other = x at hrel
    cases hrel with
    | some hu' => exact ⟨_, rfl, hu'⟩
  cases h with
  | @here before before' after after' hkeys hbefore hafter =>
    have hne : added.1 ≠ other := by
      rintro rfl
      cases (Assoc.get?_eq_none_iff.2 (Assoc.not_mem_keys_of_nodup hkeys)).symm.trans hu
    obtain ⟨u', hu', hredirected⟩ := hfound hbefore hafter hu
    exact ⟨u', (get?_insert_of_ne hne).trans hu', hredirected⟩
  | @under before before' after after' key _ x x' hfirst hbefore hafter h =>
    have hne : key ≠ other := fun heq => hother (congrArg some heq)
    obtain ⟨u', hu', hredirected⟩ :=
      hfound hbefore hafter ((get?_insert_of_ne hne).symm.trans hu)
    exact ⟨u', (get?_insert_of_ne hne).trans hu', hredirected⟩

/-- The new member is found at the end of the way. -/
theorem Extended.get?_added (h : Extended R added [] v w) : w.get? added.1 = some added.2 := by
  cases h with
  | @here before before' after after' hkeys hbefore hafter =>
    have hnew : added.1 ∉ Assoc.keys before' := by
      rw [← hbefore.keys]
      intro hmem
      refine Assoc.not_mem_keys_of_nodup hkeys ?_
      rw [Assoc.keys, List.map_append]
      exact List.mem_append_left _ hmem
    show Assoc.get? (before' ++ added :: after') added.1 = _
    rw [Assoc.get?_append, Assoc.get?_eq_none_iff.2 hnew, Assoc.get?, if_pos rfl]
    rfl

/-- The object with the new member has it beside what it had before. -/
theorem Extended.oneMore (h : Extended R added [] v w) :
    Assoc.OneMore (Near R) added (v.asObject?.getD []) (w.asObject?.getD []) ∧
      (Assoc.keys (w.asObject?.getD [])).Nodup := by
  have hnear : ∀ {fields fields' : Assoc String Json}, RedirectedMembers R fields fields' →
      Assoc.Alike (Near R) fields fields' := fun h => h.imp fun _ _ hpq => ⟨hpq.1, hpq.2.near⟩
  cases h with
  | here hkeys hbefore hafter =>
    refine ⟨.intro (hnear hbefore) (hnear hafter), ?_⟩
    show (Assoc.keys (_ ++ added :: _)).Nodup
    rw [Assoc.keys, List.map_append, List.map_cons] at hkeys ⊢
    rw [← Assoc.keys, ← Assoc.keys] at hkeys ⊢
    rwa [← hbefore.keys, ← hafter.keys]

end Json

/-! ### Pointers -/

namespace Pointer

open Json

variable {R : String → String → Prop} {added : String × Json} {path : List String}
variable {root root' v w u : Json} {reference other : String} {segments : List (List Char)}

/-- The reference takes this way through a document. -/
def PointsAt (reference : String) (path : List String) : Prop :=
  (way? reference).map (List.map String.ofList) = some path

instance (reference : String) (path : List String) : Decidable (PointsAt reference path) :=
  inferInstanceAs (Decidable (_ = _))

theorem lookup_congr (h : PointsAt reference path) (h' : PointsAt other path) (root : Json) :
    lookup root reference = lookup root other := by
  have hinj : Function.Injective (List.map String.ofList) :=
    List.map_injective_iff.2 fun _ _ h => String.ofList_injective h
  rw [lookup_eq_way?, lookup_eq_way?, Option.map_injective hinj (h.trans h'.symm)]

theorem step_redirected {under : String} {segment : List Char} (h : Redirected R under v w)
    (hu : step v segment = some u) :
    ∃ u' key, step w segment = some u' ∧ Redirected R key u u' := by
  cases h with
  | scalar hobject harray =>
    cases v with
    | obj => cases hobject
    | arr => cases harray
    | null | bool | num | str => cases hu
  | @literals _ _ items h =>
    obtain ⟨i, hi, hitem⟩ := Option.bind_eq_some_iff.1 hu
    exact ⟨u, "", hu, h u (List.mem_of_getElem? hitem)⟩
  | reference => cases hu
  | list hunder h =>
    obtain ⟨i, hi, hitem⟩ := Option.bind_eq_some_iff.1 hu
    obtain ⟨hlt, rfl⟩ := List.getElem?_eq_some_iff.1 hitem
    have hlt' := h.length_eq ▸ hlt
    exact ⟨_, "", Option.bind_eq_some_iff.2 ⟨i, hi, List.getElem?_eq_getElem hlt'⟩, h.get hlt hlt'⟩
  | @object _ fields fields' hkeys hvalues =>
    have hrel := (members_of_redirected hkeys hvalues).get? (String.ofList segment)
    rw [show Assoc.get? fields (String.ofList segment) = some u from hu] at hrel
    generalize hu' : Assoc.get? fields' (String.ofList segment) = x at hrel
    cases hrel with
    | some hredirected => exact ⟨_, _, hu', hredirected⟩

theorem steps_redirected {under : String} (h : Redirected R under v w)
    (hu : segments.foldlM step v = some u) :
    ∃ u', segments.foldlM step w = some u' ∧ Near R u u' := by
  induction segments generalizing under v w with
  | nil =>
    cases hu
    exact ⟨w, rfl, h.near⟩
  | cons segment rest ih =>
    rw [List.foldlM_cons] at hu ⊢
    obtain ⟨x, hx, hu⟩ := Option.bind_eq_some_iff.1 hu
    obtain ⟨x', key, hx', hredirected⟩ := step_redirected h hx
    rw [hx']
    exact ih hredirected hu

theorem step_extended (h : Extended R added path v w) (segment : List Char) :
    step v segment = v.get? (String.ofList segment) ∧
      step w segment = w.get? (String.ofList segment) := by
  cases h <;> exact ⟨rfl, rfl⟩

/-- A way ends at values that are near to each other, unless it ends at the changed object and the
new member is read there. -/
theorem steps_extended (h : Extended R added path v w) (hpath : path ⊆ layoutKeys)
    (hend : segments.map String.ofList = path → Ignored added.1) (hu : segments.foldlM step v = some u) :
    ∃ u', segments.foldlM step w = some u' ∧ Near R u u' := by
  induction segments generalizing path v w with
  | nil =>
    cases hu
    cases path with
    | nil => exact ⟨w, rfl, h.near_of_ignored (hend rfl)⟩
    | cons key path => exact ⟨w, rfl, h.near (hpath List.mem_cons_self)⟩
  | cons segment rest ih =>
    obtain ⟨hv, hw⟩ := step_extended h segment
    rw [List.foldlM_cons, hv] at hu
    rw [List.foldlM_cons, hw]
    obtain ⟨x, hx, hu⟩ := Option.bind_eq_some_iff.1 hu
    by_cases hhead : path.head? = some (String.ofList segment)
    · obtain ⟨keys, rfl⟩ := List.head?_eq_some_iff.1 hhead
      obtain ⟨y, y', hy, hy', hinside⟩ := h.get?_under
      cases hy.symm.trans hx
      rw [hy']
      refine ih hinside (fun key hkey => hpath (List.mem_cons_of_mem _ hkey)) (fun heq => hend ?_) hu
      rw [List.map_cons, heq]
    · obtain ⟨x', hx', hredirected⟩ := h.get?_beside hhead hx
      rw [hx']
      exact steps_redirected hredirected hu

theorem steps_added (h : Extended R added path v w)
    (hsegments : segments.map String.ofList = path ++ [added.1]) :
    segments.foldlM step w = some added.2 := by
  induction path generalizing segments v w with
  | nil =>
    obtain ⟨segment, rfl, hsegment⟩ := List.map_eq_singleton_iff.1 hsegments
    rw [List.foldlM_cons, (step_extended h segment).2, hsegment, h.get?_added]
    rfl
  | cons key path ih =>
    obtain ⟨segment, rest, rfl, hsegment, hrest⟩ := List.map_eq_cons_iff.1 hsegments
    obtain ⟨_, u', -, hu', hinside⟩ := h.get?_under
    rw [List.foldlM_cons, (step_extended h segment).2, hsegment, hu']
    exact ih hinside hrest

theorem lookup_extended (h : Extended R added path root root') (hpath : path ⊆ layoutKeys)
    (hway : PointsAt reference path → Ignored added.1) (hu : lookup root reference = some u) :
    ∃ u', lookup root' reference = some u' ∧ Near R u u' := by
  rw [lookup_eq_way?] at hu ⊢
  obtain ⟨segments, hsegments, hu⟩ := Option.bind_eq_some_iff.1 hu
  rw [hsegments]
  refine steps_extended h hpath (fun heq => hway ?_) hu
  rw [PointsAt, hsegments, Option.map_some, heq]

theorem lookup_added (h : Extended R added path root root')
    (hreference : PointsAt reference (path ++ [added.1])) :
    lookup root' reference = some added.2 := by
  obtain ⟨segments, hway, hsegments⟩ := Option.map_eq_some_iff.1 hreference
  rw [lookup_eq_way?, hway]
  exact steps_added h hsegments

/-! ### Chains -/

/-- The reference is one to the named schema: it has its name, and it leads there. -/
structure Names (path : List String) (target reference : String) : Prop where
  name : componentName reference = target
  way : PointsAt reference (path ++ [target])

/-- What may stand for a reference where the schema `target` has got the other name `fresh`, with
the named schemas at `path`: itself, unless it leads to the object of all named schemas and the
other name is read there for something else; or, if it has the name of the schema and leads to
nothing else, a reference that has the other name. -/
inductive Redirects (root : Json) (path : List String) (fresh target : String) :
    String → String → Prop
  | kept {s : String} (hway : PointsAt s path → Ignored fresh) :
      Redirects root path fresh target s s
  | moved {s t : String} (hname : componentName s = target) (hname' : componentName t = fresh)
      (hway : (lookup root s).isSome →
        PointsAt s (path ++ [target]) ∧ PointsAt t (path ++ [fresh])) :
      Redirects root path fresh target s t

/-- One of the first `n` references of a chain leads to the named schema. -/
def Passes (root : Json) (path : List String) (name : String) (v : Json) (n : Nat) : Prop :=
  ∃ m u s, m < n ∧ hops? root m v = some u ∧ reference? u = some s ∧ PointsAt s (path ++ [name])

/-- A chain of references comes by the schema and is as long as may be. -/
def Strained (root : Json) (path : List String) (name : String) : Prop :=
  ∃ v w, Arrives root v 31 w ∧ Passes root path name v 31

variable {m n : Nat} {fresh target : String}

theorem arrives_succ (h : hop? root v = some u) :
    Arrives root v (n + 1) w ↔ Arrives root u n w := by
  rw [Arrives, Arrives, hops?, h, Option.bind_some]

theorem hop?_of_reference? (h : reference? v = some reference) :
    hop? root v = lookup root reference := by
  rw [hop?, h, Option.bind_some]

theorem not_arrives_of_reference? (h : reference? v = none) : ¬Arrives root v (n + 1) w := by
  rintro ⟨hw, -⟩
  rw [hops?, hop?, h] at hw
  cases hw

/-- A chain arrives once. -/
theorem arrives_unique (h : Arrives root v m w) (h' : Arrives root v n u) : m = n := by
  induction m generalizing v n with
  | zero =>
    obtain ⟨hv, hend⟩ := h
    cases hv
    cases n with
    | zero => rfl
    | succ n => exact absurd h' (not_arrives_of_reference? hend)
  | succ m ih =>
    cases n with
    | zero =>
      obtain ⟨hv, hend⟩ := h'
      cases hv
      exact absurd h (not_arrives_of_reference? hend)
    | succ n =>
      obtain ⟨x, hx, -⟩ := Option.bind_eq_some_iff.1 h.1
      rw [arrives_succ hx] at h h'
      rw [ih h h']

/-- A chain that arrives does not come by the schema a second time. -/
theorem not_passes_of_arrives (hs : PointsAt reference (path ++ [target]))
    (hu : lookup root reference = some u) (hw : Arrives root u n w) :
    ¬Passes root path target u n := by
  rintro ⟨m, x, s, hlt, hx, hreference, hway⟩
  -- back at the schema, the chain has as far to go as before
  have hback : hops? root (m + 1) u = some u := by
    rw [hops?_add, hx, Option.bind_some, hops?, hop?_of_reference? hreference,
      lookup_congr hway hs, hu]
    rfl
  have hagain : Arrives root u (n - (m + 1)) w := by
    refine ⟨?_, hw.2⟩
    have hfar := hw.1
    rw [← Nat.add_sub_cancel' (Nat.succ_le_of_lt hlt), hops?_add, hback] at hfar
    exact hfar
  have hsame := arrives_unique hw hagain
  omega

section Chains

variable {s : String}
  (h : Extended (Redirects root path fresh target) (fresh, .obj [("$ref", .str s)]) path root root')
  (hpath : path ⊆ layoutKeys) (hs : Names path target s)

include h hpath hs

/-- A chain arrives where it did, up to other references, and is by one longer at the most. -/
theorem arrives_extended (hv : Near (Redirects root path fresh target) v w)
    (hu : Arrives root v n u) : ∃ u', Near (Redirects root path fresh target) u u' ∧
      (Arrives root' w n u' ∨ Passes root path target v n ∧ Arrives root' w (n + 1) u') := by
  induction n generalizing v w with
  | zero =>
    obtain ⟨hvu, hend⟩ := hu
    cases hvu
    have hreference := hv.reference?
    rw [hend] at hreference
    refine ⟨w, hv, .inl ⟨rfl, ?_⟩⟩
    generalize reference? w = x at hreference
    cases hreference
    rfl
  | succ n ih =>
    obtain ⟨x, hx, -⟩ := Option.bind_eq_some_iff.1 hu.1
    rw [arrives_succ hx] at hu
    obtain ⟨old, hold, hlookup⟩ := Option.bind_eq_some_iff.1 hx
    have hreference := hv.reference?
    rw [hold] at hreference
    generalize hnew : reference? w = y at hreference
    cases hreference with
    | @some _ new hredirects =>
      have hlater : ∀ {k}, Passes root path target x k → Passes root path target v (k + 1) := by
        rintro k ⟨m, y, t, hlt, hy, ht, hway⟩
        refine ⟨m + 1, y, t, Nat.succ_lt_succ hlt, ?_, ht, hway⟩
        rw [hops?, hx, Option.bind_some, hy]
      cases hredirects with
      | kept hway =>
        obtain ⟨x', hx', hnear⟩ := lookup_extended h hpath hway hlookup
        have hhop : hop? root' w = some x' := (hop?_of_reference? hnew).trans hx'
        obtain ⟨u', hu', hshort | ⟨hpasses, hlong⟩⟩ := ih hnear hu
        · exact ⟨u', hu', .inl ((arrives_succ hhop).2 hshort)⟩
        · exact ⟨u', hu', .inr ⟨hlater hpasses, (arrives_succ hhop).2 hlong⟩⟩
      | moved hname hname' hway =>
        obtain ⟨hold', hnew'⟩ := hway (by rw [hlookup]; rfl)
        -- the new name is one reference more, to what the old name stands for
        have hne : ¬PointsAt s path := by
          intro hshort
          have hlength := congrArg List.length (Option.some.inj (hshort.symm.trans hs.way))
          simp at hlength
        obtain ⟨x', hx', hnear⟩ :=
          lookup_extended h hpath (absurd · hne) ((lookup_congr hs.way hold' root).trans hlookup)
        have hfirst : hop? root' w = some (.obj [("$ref", .str s)]) :=
          (hop?_of_reference? hnew).trans (lookup_added h hnew')
        have hsecond : hop? root' (.obj [("$ref", .str s)]) = some x' := hx'
        obtain ⟨u', hu', hshort | ⟨hpasses, -⟩⟩ := ih hnear hu
        · refine ⟨u', hu', .inr ⟨⟨0, v, old, Nat.succ_pos n, rfl, hold, hold'⟩, ?_⟩⟩
          exact (arrives_succ hfirst).2 ((arrives_succ hsecond).2 hshort)
        · exact absurd hpasses (not_passes_of_arrives hold' hlookup hu)

/-- What following a reference gives is followed to by the other one as well, unless the chain was as
long as may be and has got a reference more. -/
theorem follow_leads (hv : Near (Redirects root path fresh target) v w) :
    Leads (fun e => e = tooLong ∧ Strained root path target)
      (Near (Redirects root path fresh target)) (follow root v) (follow root' w) := by
  rcases ends_or_endless root v with ⟨n, u, hu⟩ | ⟨n, lost, hlost⟩ | hend
  · rw [follow_of_arrives hu]
    split
    · next hn =>
      obtain ⟨u', hu', hshort | ⟨hpasses, hlong⟩⟩ := arrives_extended h hpath hs hv hu
      · rw [follow_of_arrives hshort, if_pos hn]
        exact .ok hu'
      · rw [follow_of_arrives hlong]
        split
        · exact .ok hu'
        · next hlate =>
          have hlast : n = 31 := Nat.le_antisymm (Nat.le_of_lt_succ hn)
            (Nat.le_of_succ_le_succ (Nat.le_of_not_lt hlate))
          subst hlast
          exact .late u ⟨rfl, v, u, hu, hpasses⟩
    · exact .error _ _
  · rw [follow_of_breaks hlost]
    split
    · exact .error _ _
    · exact .error _ _
  · rw [follow_of_endless hend]
    exact .error _ _

end Chains

end Pointer

end TypedClient
