import TypedClient.Proofs.Model.Keys
import TypedClient.Proofs.TypeName.Separators

/-! The scope and the name that are read from a text. The brackets of the scope match, and no dot of
the name comes after matching brackets, so both together, with a dot between them, can be taken
apart in one way only: the key of a file tells scope and name. -/

namespace TypedClient

namespace TypeName

variable {depth : Int} {cs xs ys before after : List Char}

/-! ### Where the last dot stands -/

/-- The dot that is cut at stands outside all brackets, and none before it does. -/
theorem outside_of_cutDot (h : cutDot depth cs = some (before, after)) :
    depthAfterAll depth before = 0 ∧ Uncut '.' depth before := by
  induction cs generalizing depth before with
  | nil => cases h
  | cons c cs ih =>
    rw [cutDot] at h
    split at h
    · next hdot =>
      cases h
      simp only [Bool.and_eq_true, beq_iff_eq] at hdot
      exact ⟨(depthAfterAll_nil depth).trans hdot.2, trivial⟩
    · next hdot =>
      obtain ⟨⟨front, rest⟩, hcut, heq⟩ := Option.map_eq_some_iff.1 h
      cases heq
      rw [depthAfterAll_cons]
      exact ⟨(ih hcut).1, by simpa using hdot, (ih hcut).2⟩

theorem uncut_of_cutDot (h : cutDot depth cs = none) : Uncut '.' depth cs := by
  induction cs generalizing depth with
  | nil => trivial
  | cons c cs ih =>
    rw [cutDot] at h
    split at h
    · cases h
    · next hdot => exact ⟨by simpa using hdot, ih (Option.map_eq_none_iff.1 h)⟩

/-! ### Names without a scope -/

/-- No dot comes after matching brackets. -/
def Unscoped (cs : List Char) : Prop :=
  ∀ before after, cs = before ++ '.' :: after → ¬ Matched before

theorem Unscoped.of_prefix (h : Unscoped ys) (hbegins : xs <+: ys) : Unscoped xs := by
  obtain ⟨rest, rfl⟩ := hbegins
  rintro before after rfl
  exact h before (after ++ rest) (by simp)

theorem matched_nil : Matched [] := matched_of_plain fun _ hc => absurd hc List.not_mem_nil

/-- A dot is no bracket. -/
theorem countP_append_dot {p : Char → Bool} (hp : p '.' = false) (xs ys : List Char) :
    (xs ++ '.' :: ys).countP p = xs.countP p + ys.countP p := by
  rw [List.countP_append, List.countP_cons_of_neg (by rw [hp]; exact Bool.false_ne_true)]

/-- What is left of matching brackets after others that match is matching, too. -/
theorem Matched.of_append (hx : Matched xs) (h : Matched (xs ++ '.' :: ys)) : Matched ys := by
  refine ⟨fun p hp => ?_, ?_⟩
  · obtain ⟨rest, rfl⟩ := hp
    have hopened := h.opened (xs ++ '.' :: p) ⟨rest, by simp⟩
    rw [countP_append_dot rfl, countP_append_dot rfl, hx.closed] at hopened
    exact Nat.le_of_add_le_add_left hopened
  · have hclosed := h.closed
    rw [countP_append_dot rfl, countP_append_dot rfl, hx.closed] at hclosed
    exact Nat.add_left_cancel hclosed

/-- A text that is not cut backwards has no scope. -/
theorem unscoped_of_uncut (hclosed : cs.countP isCloser = cs.countP isOpener)
    (h : Uncut '.' 0 cs.reverse) : Unscoped cs := by
  rintro before after rfl hbefore
  rw [countP_append_dot rfl, countP_append_dot rfl, hbefore.closed] at hclosed
  rw [List.reverse_append, List.reverse_cons, List.append_assoc, uncut_append] at h
  refine h.2.1 ⟨rfl, ?_⟩
  rw [depthAfterAll, List.countP_reverse, List.countP_reverse]
  omega

/-! ### What is read -/

/-- A scope and a name as they are read from a text. -/
structure Separate (scope name : List Char) : Prop where
  scope : Matched scope
  name : Unscoped name

theorem separate_splitScope (h : Matched cs) :
    Separate (splitScope cs).1 (splitScope cs).2 := by
  unfold splitScope
  cases hcut : cutDot 0 cs.reverse with
  | none =>
    have huncut := uncut_of_cutDot hcut
    exact ⟨matched_nil, unscoped_of_uncut h.closed huncut⟩
  | some parts =>
    obtain ⟨last, scope⟩ := parts
    have hcs : cs = scope.reverse ++ '.' :: last.reverse := by
      have hreversed := congrArg List.reverse (eq_of_cutDot hcut)
      simpa using hreversed
    obtain ⟨hdepth, huncut⟩ := outside_of_cutDot hcut
    have hlast : last.reverse.countP isCloser = last.reverse.countP isOpener := by
      rw [depthAfterAll] at hdepth
      rw [List.countP_reverse, List.countP_reverse]
      omega
    refine ⟨⟨fun p hp => ?_, ?_⟩, ?_⟩
    · exact h.opened p (hp.trans (hcs ▸ List.prefix_append ..))
    · have hclosed := h.closed
      rw [hcs, countP_append_dot rfl, countP_append_dot rfl, hlast] at hclosed
      exact Nat.add_right_cancel hclosed
    · exact unscoped_of_uncut hlast (by rwa [List.reverse_reverse])

theorem prefix_headOf (cs : List Char) : headOf cs <+: cs := by
  unfold headOf
  split
  · exact List.prefix_refl cs
  · exact List.takeWhile_prefix _

theorem separate_of_parse {text : String} {parsed : TypeName} (h : parse text = .ok parsed) :
    Separate parsed.scope.toList parsed.name.toList := by
  have hmatched : Matched text.toList := by
    rw [parse, parseChars_eq] at h
    split at h
    · next hbalanced => exact balanced_iff.1 hbalanced
    · cases h
  obtain ⟨hscope, hname, -⟩ := parts_of_parse h
  obtain ⟨hmatched, hunscoped⟩ := separate_splitScope hmatched
  rw [hscope, hname, String.toList_ofList, String.toList_ofList]
  exact ⟨hmatched, hunscoped.of_prefix (prefix_headOf _)⟩

/-! ### Taking apart -/

namespace Separate

variable {scope name scope' name' : List Char}

/-- A longer scope would be cut off the name. -/
theorem eq_of_scope_append {rest : List Char} (h : Separate scope name)
    (h' : Matched (scope ++ rest)) (heq : '.' :: name = rest ++ '.' :: name') :
    rest = [] ∧ name = name' := by
  cases rest with
  | nil => exact ⟨rfl, (List.cons.inj heq).2⟩
  | cons c rest =>
    obtain ⟨rfl, hname⟩ := List.cons.inj heq
    exact absurd (h.scope.of_append h') (h.name rest name' hname)

/-- Scope and name can be told from both, with a dot between them. -/
theorem eq_of_append (h : Separate scope name) (h' : Separate scope' name')
    (heq : scope ++ '.' :: name = scope' ++ '.' :: name') : scope = scope' ∧ name = name' := by
  rcases List.append_eq_append_iff.1 heq with ⟨rest, rfl, hrest⟩ | ⟨rest, rfl, hrest⟩
  · obtain ⟨rfl, hname⟩ := h.eq_of_scope_append h'.scope hrest
    exact ⟨(List.append_nil scope).symm, hname⟩
  · obtain ⟨rfl, hname⟩ := h'.eq_of_scope_append h.scope hrest
    exact ⟨List.append_nil scope', hname.symm⟩

/-- The scope may be left out. -/
theorem unscoped (h : Separate scope name) : Separate [] name :=
  ⟨matched_nil, h.name⟩

end Separate

end TypeName

/-- The key of a file tells the scope and the name of a type. -/
theorem TypeInfo.eq_of_fileKey {t u : TypeInfo}
    (ht : TypeName.Separate t.scope.toList t.name.toList)
    (hu : TypeName.Separate u.scope.toList u.name.toList) (h : t.fileKey = u.fileKey) :
    t.scope = u.scope ∧ t.name = u.name := by
  have hkey : ∀ v : TypeInfo, v.fileKey.toList =
      if v.scope = "" then v.name.toList else v.scope.toList ++ '.' :: v.name.toList := by
    intro v
    unfold TypeInfo.fileKey
    split <;> simp
  have htext := congrArg String.toList h
  rw [hkey, hkey] at htext
  split at htext <;> split at htext
  · next ht' hu' => exact ⟨ht'.trans hu'.symm, String.toList_inj.1 htext⟩
  · exact absurd hu.scope (ht.name _ _ htext)
  · exact absurd ht.scope (hu.name _ _ htext.symm)
  · obtain ⟨hscope, hname⟩ := ht.eq_of_append hu htext
    exact ⟨String.toList_inj.1 hscope, String.toList_inj.1 hname⟩

end TypedClient
