import TypedClient.Proofs.TypeName.Brackets

/-! Where a name is cut. Both scans, forwards for commas and backwards for the last dot, pass over a
text in which no separator stands outside all brackets, and go on behind it at the depth that the
text leads to. -/

namespace TypedClient

namespace TypeName

/-- No separator stands outside all brackets, where `depth` of them are open before the text. -/
def Uncut (separator : Char) : Int → List Char → Prop
  | _, [] => True
  | depth, c :: cs => ¬ (c = separator ∧ depth = 0) ∧ Uncut separator (depthAfter depth c) cs

variable {separator : Char} {depth : Int} {xs ys : List Char}

theorem uncut_append :
    Uncut separator depth (xs ++ ys) ↔
      Uncut separator depth xs ∧ Uncut separator (depthAfterAll depth xs) ys := by
  induction xs generalizing depth with
  | nil => simp [Uncut]
  | cons c xs ih => rw [List.cons_append, Uncut, Uncut, ih, depthAfterAll_cons, and_assoc]

theorem uncut_of_not_mem (h : separator ∉ xs) : Uncut separator depth xs := by
  induction xs generalizing depth with
  | nil => trivial
  | cons c xs ih =>
    rw [List.mem_cons, not_or] at h
    exact ⟨fun hc => h.1 hc.1.symm, ih h.2⟩

/-- Where some bracket is open throughout, no separator cuts. -/
theorem uncut_of_depth (h : ∀ p, p <+: xs → depthAfterAll depth p ≠ 0) :
    Uncut separator depth xs := by
  induction xs generalizing depth with
  | nil => trivial
  | cons c xs ih =>
    refine ⟨fun hc => h [] List.nil_prefix (by rw [depthAfterAll_nil, hc.2]), ih fun p hp => ?_⟩
    rw [← depthAfterAll_cons]
    exact h (c :: p) (List.cons_prefix_cons.2 ⟨rfl, hp⟩)

/-! ### Matching brackets -/

theorem Matched.depthAfterAll (h : Matched xs) (depth : Int) :
    TypeName.depthAfterAll depth xs = depth := by
  rw [TypeName.depthAfterAll, h.closed]
  omega

theorem Matched.depthAfterAll_reverse (h : Matched xs) (depth : Int) :
    TypeName.depthAfterAll depth xs.reverse = depth := by
  rw [TypeName.depthAfterAll, List.countP_reverse, List.countP_reverse, h.closed]
  omega

/-- Within a bracket, a text with matching brackets is not cut. -/
theorem Matched.uncut (h : Matched xs) (hdepth : 0 < depth) : Uncut separator depth xs := by
  refine uncut_of_depth fun p hp => ?_
  have hopened := h.opened p hp
  unfold TypeName.depthAfterAll
  omega

/-- Neither is it when it is read backwards, where brackets are open before they are closed. -/
theorem Matched.uncut_reverse (h : Matched xs) (hdepth : depth < 0) :
    Uncut separator depth xs.reverse := by
  refine uncut_of_depth fun p hp => ?_
  have hsuffix : p.reverse <:+ xs := by
    rwa [← List.reverse_prefix, List.reverse_reverse]
  have hclosed := h.closed_of_suffix hsuffix
  rw [List.countP_reverse, List.countP_reverse] at hclosed
  unfold TypeName.depthAfterAll
  omega

/-- A text in angle brackets is not cut, whichever way it is read. -/
theorem Matched.uncut_enclosed (h : Matched xs) (hopener : '<' ≠ separator)
    (hcloser : '>' ≠ separator) :
    Uncut separator 0 ('<' :: (xs ++ ['>'])) ∧ Uncut separator 0 ('<' :: (xs ++ ['>'])).reverse := by
  constructor
  · refine ⟨fun hc => hopener hc.1, uncut_append.2 ⟨h.uncut (by decide), ?_⟩⟩
    exact ⟨fun hc => hcloser hc.1, trivial⟩
  · rw [List.reverse_cons, List.reverse_append]
    refine ⟨fun hc => hcloser hc.1, uncut_append.2 ⟨h.uncut_reverse (by decide), ?_⟩⟩
    exact ⟨fun hc => hopener hc.1, trivial⟩

/-! ### Commas -/

/-- Puts a text before the first piece. -/
def prepend (xs : List Char) : List (List Char) → List (List Char)
  | [] => [xs]
  | p :: ps => (xs ++ p) :: ps

theorem splitCommas_append (h : Uncut ',' depth xs) (ys : List Char) :
    splitCommas depth (xs ++ ys) = prepend xs (splitCommas (depthAfterAll depth xs) ys) := by
  induction xs generalizing depth with
  | nil =>
    rw [List.nil_append, depthAfterAll_nil]
    cases hys : splitCommas depth ys with
    | nil => exact absurd hys (splitCommas_ne_nil depth ys)
    | cons p ps => rfl
  | cons c xs ih =>
    have hcut : ¬ (decide (c = ',') && depth == 0) = true := by simpa using h.1
    rw [List.cons_append, splitCommas, if_neg hcut, ih h.2, depthAfterAll_cons]
    cases hys : splitCommas (depthAfterAll (depthAfter depth c) xs) ys with
    | nil => exact absurd hys (splitCommas_ne_nil _ ys)
    | cons p ps => rfl

/-- Texts with commas between them are split at these, when none can be split itself. -/
theorem splitCommas_intercalate {texts : List (List Char)} (hne : texts ≠ [])
    (h : ∀ t ∈ texts, Matched t ∧ Uncut ',' 0 t) :
    splitCommas 0 ([','].intercalate texts) = texts := by
  induction texts with
  | nil => exact absurd rfl hne
  | cons t rest ih =>
    obtain ⟨hmatched, huncut⟩ := h t List.mem_cons_self
    cases rest with
    | nil =>
      have hsplit := splitCommas_append huncut []
      rw [List.append_nil, hmatched.depthAfterAll] at hsplit
      simpa [prepend, splitCommas] using hsplit
    | cons next rest =>
      have hrest := ih (List.cons_ne_nil _ _) fun u hu => h u (List.mem_cons_of_mem t hu)
      rw [List.intercalate_cons_cons, List.append_assoc, splitCommas_append huncut,
        hmatched.depthAfterAll]
      show prepend t ([] :: splitCommas 0 ([','].intercalate (next :: rest))) = _
      rw [hrest, prepend, List.append_nil]

/-! ### The last dot -/

theorem cutDot_append (h : Uncut '.' depth xs) (ys : List Char) :
    cutDot depth (xs ++ ys) =
      (cutDot (depthAfterAll depth xs) ys).map fun (before, after) => (xs ++ before, after) := by
  induction xs generalizing depth with
  | nil => simp
  | cons c xs ih =>
    have hcut : ¬ (decide (c = '.') && depth == 0) = true := by simpa using h.1
    rw [List.cons_append, cutDot, if_neg hcut, ih h.2, depthAfterAll_cons, Option.map_map]
    rfl

/-- What follows the last dot, and what comes before it. -/
theorem splitScope_append (h : Uncut '.' 0 ys.reverse) (hy : Matched ys) (xs : List Char) :
    splitScope (xs ++ '.' :: ys) = (xs, ys) := by
  have hcut : cutDot 0 (xs ++ '.' :: ys).reverse = some (ys.reverse, xs.reverse) := by
    rw [List.reverse_append, List.reverse_cons, List.append_assoc, cutDot_append h,
      hy.depthAfterAll_reverse]
    simp [cutDot]
  rw [splitScope, hcut]
  simp

theorem splitScope_of_uncut (h : Uncut '.' 0 ys.reverse) : splitScope ys = ([], ys) := by
  have hcut := cutDot_append h []
  rw [List.append_nil] at hcut
  rw [splitScope, hcut]
  rfl

end TypeName

end TypedClient
