import TypedClient.Proofs.Client.MediaTypes
import TypedClient.Proofs.Document.Blanked

/-! Documents whose media types are written in other letters, capital or small: the keys of
contents, and the entries of what is consumed and produced. Members under keys without a slash are
found in both, and say the same; what is found under any key in both does as well, since no two
media types of one content differ in case only. So references that lead somewhere in both lead to
values that say the same. -/

namespace TypedClient

namespace Text

theorem mem_slash_of_sameLetters {s t : String} (h : sameLetters s t) :
    '/' ∈ s.toList ↔ '/' ∈ t.toList := by
  have hlow : ∀ s : String, '/' ∈ (lower s).toList ↔ '/' ∈ s.toList := by
    intro s
    simp [toList_lower, low, toLower_eq_iff]
  rw [← hlow, sameLetters_iff.1 h, hlow]

end Text

namespace Json

variable {kept : String → String → Prop} {under key : String} {v w : Json}

/-! ### Values -/

/-- Keys in a value that stands under `under`: the same, or media types of a content. -/
def KeyRecased (kept : String → String → Prop) (under key key' : String) : Prop :=
  key = key' ∨ under = "content" ∧ '/' ∈ key.toList ∧ MediaType.Recased kept key key'

/-- Entries of a list of media types. -/
inductive EntryRecased (kept : String → String → Prop) : Json → Json → Prop
  | same (v : Json) : EntryRecased kept v v
  | text {s t : String} (h : MediaType.Recased kept s t) : EntryRecased kept (.str s) (.str t)

/-- The second value is the first one with media types in other letters. A value is told by the key
under which it stands whether it has media types: those of a content are keys with a slash, and no
two of them differ in case only; the entries of what is consumed or produced do not either. -/
inductive Recased (kept : String → String → Prop) : String → Json → Json → Prop
  | same (under : String) (v : Json) : Recased kept under v v
  | object {under : String} {fields fields' : List (String × Json)}
      (hapart : under = "content" →
        fields.Pairwise fun p q => '/' ∈ p.1.toList → ¬Text.sameLetters p.1 q.1)
      (hkeys : List.Forall₂ (fun p q => KeyRecased kept under p.1 q.1) fields fields')
      (hvalues : ∀ m ∈ fields.zip fields', Recased kept m.1.1 m.1.2 m.2.2) :
      Recased kept under (.obj fields) (.obj fields')
  | parameters {items items' : List Json} (h : List.Forall₂ (Recased kept "") items items') :
      Recased kept "parameters" (.arr items) (.arr items')
  | mediaTypes {under : String} {types types' : List Json}
      (hunder : under = "consumes" ∨ under = "produces")
      (hapart : (types.filterMap asString?).Pairwise fun s t => ¬Text.sameLetters s t)
      (h : List.Forall₂ (EntryRecased kept) types types') :
      Recased kept under (.arr types) (.arr types')

/-- Members of two values that stand under `under`. -/
def RecasedMembers (kept : String → String → Prop) (under : String) :
    List (String × Json) → List (String × Json) → Prop :=
  List.Forall₂ fun p q => KeyRecased kept under p.1 q.1 ∧ Recased kept p.1 p.2 q.2

theorem KeyRecased.mediaType {key' : String} (h : KeyRecased kept under key key') :
    MediaType.Recased kept key key' := by
  obtain rfl | ⟨-, -, h⟩ := h
  · exact .inl rfl
  · exact h

/-- Keys that differ have a slash both. -/
theorem KeyRecased.slash {key' : String} (h : KeyRecased kept under key key') (hne : key ≠ key') :
    under = "content" ∧ '/' ∈ key.toList ∧ '/' ∈ key'.toList ∧ Text.sameLetters key key' := by
  obtain rfl | ⟨hunder, hslash, rfl | ⟨hletters, -⟩⟩ := h
  · exact absurd rfl hne
  · exact absurd rfl hne
  · exact ⟨hunder, hslash, (Text.mem_slash_of_sameLetters hletters).1 hslash, hletters⟩

theorem RecasedMembers.object {fields fields' : List (String × Json)}
    (h : RecasedMembers kept under fields fields') (hapart : under = "content" →
      fields.Pairwise fun p q => '/' ∈ p.1.toList → ¬Text.sameLetters p.1 q.1) :
    Recased kept under (.obj fields) (.obj fields') :=
  .object hapart (h.imp fun _ _ hpq => hpq.1) fun _ hm => (List.forall₂_iff_zip.1 h).2 hm |>.2

theorem members_of_recased {fields fields' : List (String × Json)}
    (hkeys : List.Forall₂ (fun p q => KeyRecased kept under p.1 q.1) fields fields')
    (hvalues : ∀ m ∈ fields.zip fields', Recased kept m.1.1 m.1.2 m.2.2) :
    RecasedMembers kept under fields fields' := by
  obtain ⟨hlength, hkeys⟩ := List.forall₂_iff_zip.1 hkeys
  exact List.forall₂_iff_zip.2 ⟨hlength, fun hm => ⟨hkeys hm, hvalues _ hm⟩⟩

theorem members_same (fields : List (String × Json)) : RecasedMembers kept under fields fields :=
  List.forall₂_same.2 fun p _ => ⟨.inl rfl, .same p.1 p.2⟩

/-! ### Members -/

section Members

variable {fields fields' : Assoc String Json} (h : RecasedMembers kept under fields fields')

include h

/-- Under a key without a slash the two have members both, or none. -/
theorem RecasedMembers.get? (hkey : '/' ∉ key.toList) :
    Option.Rel (Recased kept key) (Assoc.get? fields key) (Assoc.get? fields' key) := by
  induction h with
  | nil => exact .none
  | @cons p q _ _ hpq _ ih =>
    obtain ⟨k, u⟩ := p
    obtain ⟨k', u'⟩ := q
    obtain ⟨hk, hu⟩ := hpq
    by_cases hne : k = k'
    · subst hne
      rw [Assoc.get?, Assoc.get?]
      split
      · next heq =>
        subst heq
        exact .some hu
      · exact ih
    · obtain ⟨-, hslash, hslash', -⟩ := hk.slash hne
      rw [Assoc.get?, Assoc.get?, if_neg, if_neg]
      · exact ih
      · rintro rfl
        exact hkey hslash'
      · rintro rfl
        exact hkey hslash

/-- What the two have under one key, whichever it is, says the same: two media types that became
one or were one would differ in case only. -/
theorem RecasedMembers.get?_both
    (hapart : under = "content" →
      fields.Pairwise fun p q => '/' ∈ p.1.toList → ¬Text.sameLetters p.1 q.1)
    {u u' : Json} (hu : Assoc.get? fields key = some u) (hu' : Assoc.get? fields' key = some u') :
    Recased kept key u u' := by
  induction h with
  | nil => cases hu
  | @cons p q rest rest' hpq hrest ih =>
    obtain ⟨k, x⟩ := p
    obtain ⟨k', x'⟩ := q
    obtain ⟨hk, hx⟩ := hpq
    rw [Assoc.get?] at hu hu'
    by_cases hkk : k = k'
    · subst hkk
      split at hu
      · next heq =>
        subst heq
        rw [if_pos rfl] at hu'
        cases hu
        cases hu'
        exact hx
      · next hne =>
        rw [if_neg hne] at hu'
        exact ih (fun hunder => (List.pairwise_cons.1 (hapart hunder)).2) hu hu'
    · obtain ⟨hunder, hslash, -, hletters⟩ := hk.slash hkk
      obtain ⟨hfirst, hrests⟩ := List.pairwise_cons.1 (hapart hunder)
      by_cases hkey : k = key
      · subst hkey
        rw [if_neg (Ne.symm hkk)] at hu'
        obtain ⟨p, hp, hkp, -⟩ := exists_of_mem_right hrest (Assoc.mem_of_get? hu')
        exact absurd (Text.sameLetters_iff.2 (Text.sameLetters_iff.1 hkp.mediaType.letters).symm)
          (hfirst p hp hslash)
      · rw [if_neg hkey] at hu
        by_cases hkey' : k' = key
        · subst hkey'
          exact absurd hletters (hfirst (k', u) (Assoc.mem_of_get? hu) hslash)
        · rw [if_neg hkey'] at hu'
          exact ih (fun _ => hrests) hu hu'

end Members

/-! ### Values that say the same -/

/-- The first value is written as the second one, up to media types, or each is a text. -/
inductive Landed (kept : String → String → Prop) : Json → Json → Prop
  | value {under : String} {v w : Json} (h : Recased kept under v w) : Landed kept v w
  | text (s t : String) : Landed kept (.str s) (.str t)

theorem EntryRecased.landed (h : EntryRecased kept v w) : Landed kept v w := by
  cases h with
  | same => exact .value (.same "" v)
  | text => exact .text _ _

namespace Recased

variable (h : Recased kept key v w)

include h

theorem asString? : v.asString? = w.asString? := by cases h <;> rfl

theorem asBool? : v.asBool? = w.asBool? := by cases h <;> rfl

/-- Only objects and lists change, and of lists only parameters and media types. -/
theorem shape : v = w ∨
    (∃ fields fields', v = .obj fields ∧ w = .obj fields' ∧
      RecasedMembers kept key fields fields') ∨
    key ∈ ["parameters", "consumes", "produces"] ∧ ∃ items items', v = .arr items ∧
      w = .arr items' := by
  cases h with
  | same => exact .inl rfl
  | object _ hkeys hvalues =>
    exact .inr (.inl ⟨_, _, rfl, rfl, members_of_recased hkeys hvalues⟩)
  | parameters => exact .inr (.inr ⟨by decide, _, _, rfl, rfl⟩)
  | mediaTypes hunder =>
    refine .inr (.inr ⟨?_, _, _, rfl, rfl⟩)
    rcases hunder with rfl | rfl <;> decide

theorem asArray? (hkey : key ∉ ["parameters", "consumes", "produces"]) :
    v.asArray? = w.asArray? := by
  obtain rfl | ⟨_, _, rfl, rfl, -⟩ | ⟨hlist, -⟩ := h.shape
  · rfl
  · rfl
  · exact absurd hlist hkey

/-- The members stand under the same keys, up to media types. -/
theorem members : RecasedMembers kept key (v.asObject?.getD []) (w.asObject?.getD []) := by
  cases h with
  | same => exact members_same _
  | object _ hkeys hvalues => exact members_of_recased hkeys hvalues
  | parameters => exact .nil
  | mediaTypes => exact .nil

end Recased

namespace Landed

variable (h : Landed kept v w)

include h

theorem members :
    ∃ under, RecasedMembers kept under (v.asObject?.getD []) (w.asObject?.getD []) := by
  cases h with
  | value h => exact ⟨_, h.members⟩
  | text => exact ⟨"", .nil⟩

theorem get? (hkey : '/' ∉ key.toList) :
    Option.Rel (Recased kept key) (v.get? key) (w.get? key) := by
  obtain ⟨under, hmembers⟩ := h.members
  have hget := hmembers.get? hkey
  have hmember : ∀ u : Json, Assoc.get? (u.asObject?.getD []) key = u.get? key := by
    intro u
    rw [Json.get?]
    cases u.asObject? <;> rfl
  rwa [hmember, hmember] at hget

section Texts

variable (hkey : '/' ∉ key.toList)

include hkey

theorem getString? : v.getString? key = w.getString? key :=
  bind_eq_of_rel (h.get? hkey) Recased.asString?

theorem getBool? : v.getBool? key = w.getBool? key :=
  bind_eq_of_rel (h.get? hkey) Recased.asBool?

theorem getArray? (hlist : key ∉ ["parameters", "consumes", "produces"]) :
    v.getArray? key = w.getArray? key :=
  bind_eq_of_rel (h.get? hkey) fun hu => hu.asArray? hlist

theorem isSome_get? : (v.get? key).isSome = (w.get? key).isSome := by
  have hget := h.get? hkey
  generalize v.get? key = u, w.get? key = u' at hget
  cases hget <;> rfl

theorem getObject? :
    RecasedMembers kept key ((v.getObject? key).getD []) ((w.getObject? key).getD []) := by
  have hget := h.get? hkey
  rw [Json.getObject?, Json.getObject?]
  generalize v.get? key = u, w.get? key = u' at hget
  cases hget with
  | none => exact .nil
  | some hu => exact hu.members

end Texts

end Landed

/-- The members of an object that is no content. -/
theorem RecasedMembers.alike {fields fields' : List (String × Json)}
    (h : RecasedMembers kept under fields fields') (hunder : under ≠ "content") :
    Assoc.Alike (Landed kept) fields fields' :=
  h.imp fun _ _ hpq => ⟨hpq.1.resolve_right fun hkey => hunder hkey.1, .value hpq.2⟩

/-- Both are objects with such members, or neither is an object. -/
theorem Landed.objects (h : Landed kept v w) :
    (∃ under fields fields', v = .obj fields ∧ w = .obj fields' ∧
      RecasedMembers kept under fields fields') ∨ v.asObject? = none ∧ w.asObject? = none := by
  cases h with
  | text => exact .inr ⟨rfl, rfl⟩
  | value h =>
    obtain rfl | ⟨fields, fields', rfl, rfl, hmembers⟩ | ⟨-, _, _, rfl, rfl⟩ := h.shape
    · cases v with
      | obj fields => exact .inl ⟨"", fields, fields, rfl, rfl, members_same fields⟩
      | null | bool | num | str | arr => exact .inr ⟨rfl, rfl⟩
    · exact .inl ⟨_, fields, fields', rfl, rfl, hmembers⟩
    · exact .inr ⟨rfl, rfl⟩

/-! ### Schemas -/

theorem readAlike_of_no_object (hv : v.asObject? = none) (hw : w.asObject? = none) :
    Schema.ReadAlike v w := fun location => by
  rw [Schema.classify_of_no_object hv, Schema.classify_of_no_object hw]

/-- No keyword of a schema has a slash, and none stands for parameters or media types, so the same
schema is read. -/
theorem readAlike_of_members {under : String} {fields fields' : List (String × Json)}
    (h : RecasedMembers kept under fields fields') :
    Schema.ReadAlike (.obj fields) (.obj fields') := by
  have hkeywords : ∀ key ∈ "properties" :: Schema.keywords,
      '/' ∉ key.toList ∧ key ∉ ["parameters", "consumes", "produces"] := by decide +kernel
  have hproperties := h.get? (hkeywords "properties" List.mem_cons_self).1
  refine Schema.SameKeywords.readAlike ⟨fun key hkey => ?_, Schema.has_of_rel hproperties,
    fun location => ?_⟩
  · obtain ⟨hslash, hlist⟩ := hkeywords key (List.mem_cons_of_mem _ hkey)
    refine rel_imp (h.get? hslash) fun u hu u' _ h => ?_
    have hlt := size_lt_of_get? (Option.mem_toList.1 hu)
    obtain rfl | ⟨members, members', rfl, rfl, hmembers⟩ | ⟨hkey, -⟩ := h.shape
    · exact .same _
    · exact .schemas (readAlike_of_members hmembers)
    · exact absurd hkey hlist
  · unfold Schema.classifyProperties
    cases hu : Assoc.get? fields "properties" with
    | none =>
      rw [hu] at hproperties
      generalize Assoc.get? fields' "properties" = u' at hproperties
      cases hproperties
      rfl
    | some u =>
      have hlt := size_lt_of_get? hu
      rw [hu] at hproperties
      generalize Assoc.get? fields' "properties" = u' at hproperties
      cases hproperties with
      | @some _ u' h =>
        obtain rfl | ⟨properties, properties', rfl, rfl, hmembers⟩ | ⟨hkey, -⟩ := h.shape
        · rfl
        · refine Schema.classifyMembers_congr (forall₂_imp hmembers fun p hp q _ hpq => ?_) location
          have hname := hpq.1.resolve_right fun hkey => absurd hkey.1 (by decide)
          refine ⟨hname, ?_⟩
          obtain ⟨_, members, members', hv, hw, hmembers⟩ | ⟨hv, hw⟩ := (Landed.value hpq.2).objects
          · have hlt' : (Json.obj members).size < fieldSizes properties := hv ▸ size_lt_of_mem hp
            rw [hv, hw]
            exact readAlike_of_members hmembers
          · exact readAlike_of_no_object hv hw
        · exact absurd hkey (by decide)
termination_by fieldSizes fields
decreasing_by all_goals simp only [Json.size] at *; omega

theorem Landed.readAlike (h : Landed kept v w) : Schema.ReadAlike v w := by
  obtain ⟨_, _, _, rfl, rfl, hmembers⟩ | ⟨hv, hw⟩ := h.objects
  · exact readAlike_of_members hmembers
  · exact readAlike_of_no_object hv hw

end Json

namespace Document

open Json

variable {kept : String → String → Prop} {root root' v w u u' : Json}

/-! ### References -/

theorem step_landed (h : Landed kept v w) {segment : List Char}
    (hu : Pointer.step v segment = some u) (hu' : Pointer.step w segment = some u') :
    Landed kept u u' := by
  cases h with
  | text => cases hu
  | value h =>
    cases h with
    | same =>
      cases hu.symm.trans hu'
      exact .value (.same "" u)
    | object hapart hkeys hvalues =>
      exact .value ((members_of_recased hkeys hvalues).get?_both hapart hu hu')
    | parameters h =>
      obtain ⟨i, hi, hitem⟩ := Option.bind_eq_some_iff.1 hu
      obtain ⟨_, hi', hitem'⟩ := Option.bind_eq_some_iff.1 hu'
      cases hi.symm.trans hi'
      obtain ⟨hlt, rfl⟩ := List.getElem?_eq_some_iff.1 hitem
      obtain ⟨hlt', rfl⟩ := List.getElem?_eq_some_iff.1 hitem'
      exact .value (h.get hlt hlt')
    | mediaTypes _ _ h =>
      obtain ⟨i, hi, hitem⟩ := Option.bind_eq_some_iff.1 hu
      obtain ⟨_, hi', hitem'⟩ := Option.bind_eq_some_iff.1 hu'
      cases hi.symm.trans hi'
      obtain ⟨hlt, rfl⟩ := List.getElem?_eq_some_iff.1 hitem
      obtain ⟨hlt', rfl⟩ := List.getElem?_eq_some_iff.1 hitem'
      have hentry : EntryRecased kept _ _ := h.get hlt hlt'
      exact hentry.landed

theorem walk_landed {segments : List (List Char)} (h : Landed kept v w)
    (hu : segments.foldlM Pointer.step v = some u)
    (hu' : segments.foldlM Pointer.step w = some u') : Landed kept u u' := by
  induction segments generalizing v w with
  | nil =>
    cases hu
    cases hu'
    exact h
  | cons segment rest ih =>
    rw [List.foldlM_cons] at hu hu'
    obtain ⟨x, hx, hu⟩ := Option.bind_eq_some_iff.1 hu
    obtain ⟨x', hx', hu'⟩ := Option.bind_eq_some_iff.1 hu'
    exact ih (step_landed h hx hx') hu hu'

theorem lookup_landed (h : Landed kept root root') {reference : String}
    (hu : Pointer.lookup root reference = some u)
    (hu' : Pointer.lookup root' reference = some u') : Landed kept u u' := by
  rw [Pointer.lookup_eq_way?] at hu hu'
  obtain ⟨segments, hway, hu⟩ := Option.bind_eq_some_iff.1 hu
  obtain ⟨_, hway', hu'⟩ := Option.bind_eq_some_iff.1 hu'
  cases hway.symm.trans hway'
  exact walk_landed h hu hu'

/-- Where a reference leads somewhere in both, it leads to values that say the same. -/
theorem follow_landed (h : Landed kept root root') (hv : Landed kept v w) :
    Jointly (Landed kept) (Pointer.follow root v) (Pointer.follow root' w) := by
  unfold Pointer.follow
  generalize Pointer.maxHops = n
  induction n generalizing v w with
  | zero => exact .error_left _ _
  | succ n ih =>
    rw [Pointer.followWithin, Pointer.followWithin]
    have hreference : Pointer.reference? v = Pointer.reference? w := hv.getString? (by decide)
    rw [← hreference]
    split
    · exact .ok hv
    · next reference _ =>
      cases hu : Pointer.lookup root reference with
      | none => exact .error_left _ _
      | some u =>
        cases hu' : Pointer.lookup root' reference with
        | none => exact .error_right _ _
        | some u' => exact ih (lookup_landed h hu hu')

end Document

end TypedClient
