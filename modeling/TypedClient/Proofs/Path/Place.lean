import Mathlib.Data.List.Infix
import Mathlib.Logic.Function.Iterate
import TypedClient.Path

/-! Where paths lead. A path is followed piece by piece from the root or from where one is: an empty
piece and a single dot stay, two dots leave the place for the one that it is in, every other piece
enters the place of that name. Main statement: a path taken from a directory leads to something in
it if, after going up, it comes back down the directory's own names and goes on. -/

namespace TypedClient

namespace Text

theorem pieces_append_cut {cut : Char → Bool} {c : Char} (hc : cut c = true) (as bs : List Char) :
    pieces cut (as ++ c :: bs) = pieces cut as ++ pieces cut bs := by
  induction as with
  | nil => simp [pieces, hc]
  | cons a as ih =>
    rw [List.cons_append, pieces, pieces, ih]
    split
    · rfl
    · cases has : pieces cut as with
      | nil => exact absurd has (pieces_ne_nil cut as)
      | cons p ps => rfl

/-- A text without places to cut is one piece. -/
theorem pieces_of_forall_not_cut {cut : Char → Bool} {cs : List Char}
    (h : ∀ c ∈ cs, cut c = false) : pieces cut cs = [cs] := by
  induction cs with
  | nil => rfl
  | cons c cs ih =>
    rw [List.forall_mem_cons] at h
    rw [pieces, if_neg (by rw [h.1]; exact Bool.false_ne_true), ih h.2]

theorem pieces_of_not_mem {c : Char} {cs : List Char} (h : c ∉ cs) : pieces (· == c) cs = [cs] :=
  pieces_of_forall_not_cut fun _ hx => beq_false_of_ne fun heq => h (heq ▸ hx)

end Text

namespace Path

/-- Where the names of a place are counted from: the root, or the place some levels above. -/
inductive Start where
  | root
  | above (levels : Nat)
  deriving DecidableEq, Repr

/-- A place in a tree of files, as the names on the way to it. -/
structure Place where
  start : Start
  names : List (List Char)
  deriving DecidableEq, Repr

namespace Place

def root : Place := ⟨.root, []⟩

def here : Place := ⟨.above 0, []⟩

/-- The place that a place is in; the root is in itself. -/
def leave : Place → Place
  | ⟨.root, []⟩ => root
  | ⟨.above levels, []⟩ => ⟨.above (levels + 1), []⟩
  | ⟨start, name :: names⟩ => ⟨start, (name :: names).dropLast⟩

/-- Follows one piece of a path. -/
def enter (p : Place) (piece : List Char) : Place :=
  if piece = [] ∨ piece = ['.'] then p
  else if piece = ['.', '.'] then p.leave
  else ⟨p.start, p.names ++ [piece]⟩

def follow (p : Place) (cs : List Char) : Place := (Text.pieces (· = '/') cs).foldl enter p

/-- The place is strictly inside of a directory. -/
def Below (p dir : Place) : Prop :=
  p.start = dir.start ∧ dir.names <+: p.names ∧ p.names ≠ dir.names

instance (p dir : Place) : Decidable (Below p dir) := inferInstanceAs (Decidable (_ ∧ _ ∧ _))

/-- A path leads from a directory to something in it. One from the root does by itself; another one
comes back down the names that it has gone up, and goes on. -/
def StaysIn (dir : Place) : Place → Prop
  | ⟨.root, names⟩ => Below ⟨.root, names⟩ dir
  | ⟨.above up, names⟩ =>
    (dir.start = .root ∨ up ≤ dir.names.length) ∧
      dir.names.drop (dir.names.length - up) <+: names ∧
        names ≠ dir.names.drop (dir.names.length - up)

/-! ### Following a path -/

theorem follow_nil (p : Place) : p.follow [] = p := rfl

theorem follow_append_slash (p : Place) (as bs : List Char) :
    p.follow (as ++ '/' :: bs) = (p.follow as).follow bs := by
  rw [follow, Text.pieces_append_cut (by decide), List.foldl_append]
  rfl

/-- Goes up some levels and down along names. -/
def shift (p : Place) (up : Nat) (names : List (List Char)) : Place :=
  ⟨(leave^[up] p).start, (leave^[up] p).names ++ names⟩

theorem leave_of_names_ne_nil {p : Place} (h : p.names ≠ []) :
    p.leave = ⟨p.start, p.names.dropLast⟩ := by
  obtain ⟨start, _ | ⟨name, names⟩⟩ := p
  · exact absurd rfl h
  · cases start <;> rfl

/-- A piece leads from a shifted place where it leads on the way. -/
theorem enter_shift (p : Place) (up : Nat) (names : List (List Char)) (piece : List Char) :
    ∃ up' names', enter ⟨.above up, names⟩ piece = ⟨.above up', names'⟩ ∧
      enter (p.shift up names) piece = p.shift up' names' := by
  unfold enter
  split
  · exact ⟨up, names, rfl, rfl⟩
  · split
    · cases names with
      | nil =>
        refine ⟨up + 1, [], rfl, ?_⟩
        simp only [shift, List.append_nil, Function.iterate_succ_apply']
      | cons name names =>
        refine ⟨up, (name :: names).dropLast, rfl, ?_⟩
        rw [leave_of_names_ne_nil (by simp [shift]), shift, shift,
          List.dropLast_append_of_ne_nil (List.cons_ne_nil name names)]
    · exact ⟨up, names ++ [piece], rfl, by simp only [shift, List.append_assoc]⟩

theorem foldl_enter_shift (p : Place) (pieces : List (List Char)) (up : Nat)
    (names : List (List Char)) :
    ∃ up' names', pieces.foldl enter ⟨.above up, names⟩ = ⟨.above up', names'⟩ ∧
      pieces.foldl enter (p.shift up names) = p.shift up' names' := by
  induction pieces generalizing up names with
  | nil => exact ⟨up, names, rfl, rfl⟩
  | cons piece pieces ih =>
    obtain ⟨up₁, names₁, hfree, hfrom⟩ := enter_shift p up names piece
    rw [List.foldl_cons, List.foldl_cons, hfree, hfrom]
    exact ih up₁ names₁

/-- A path leads from any place as far up and then down as it does from here. -/
theorem follow_eq_shift (p : Place) (cs : List Char) :
    ∃ up names, here.follow cs = ⟨.above up, names⟩ ∧ p.follow cs = p.shift up names := by
  have hnone : p.shift 0 [] = p := by simp [shift]
  obtain ⟨up, names, hfree, hfrom⟩ := foldl_enter_shift p (Text.pieces (· = '/') cs) 0 []
  rw [hnone] at hfrom
  exact ⟨up, names, hfree, hfrom⟩

/-- A path from the root never leaves it. -/
theorem start_follow_root {p : Place} (h : p.start = .root) (cs : List Char) :
    (p.follow cs).start = .root := by
  have henter : ∀ q : Place, q.start = .root → ∀ piece, (q.enter piece).start = .root := by
    intro q hq piece
    unfold enter
    split
    · exact hq
    · split
      · obtain ⟨start, names⟩ := q
        cases hq
        cases names <;> rfl
      · exact hq
  rw [follow]
  induction Text.pieces (· = '/') cs generalizing p with
  | nil => exact h
  | cons piece pieces ih => exact ih (henter p h piece)

/-! ### Going up -/

theorem leave_iterate_of_le {p : Place} {up : Nat} (h : up ≤ p.names.length) :
    leave^[up] p = ⟨p.start, p.names.take (p.names.length - up)⟩ := by
  induction up with
  | zero => simp
  | succ up ih =>
    rw [Function.iterate_succ_apply', ih (by omega), leave_of_names_ne_nil]
    · rw [List.dropLast_eq_take, List.take_take, List.length_take]
      congr 2
      omega
    · intro hnil
      have hlength := congrArg List.length hnil
      simp only [List.length_take, List.length_nil] at hlength
      omega

/-- Further up than a place has names there is only the root, or another start. -/
theorem leave_iterate_of_lt {p : Place} {up : Nat} (h : p.names.length < up) :
    (leave^[up] p).names = [] ∧
      ((leave^[up] p).start = p.start ↔ p.start = .root) := by
  obtain ⟨more, rfl⟩ := Nat.exists_eq_add_of_lt h
  have htop : leave^[p.names.length] p = ⟨p.start, []⟩ := by
    rw [leave_iterate_of_le (Nat.le_refl _), Nat.sub_self, List.take_zero]
  rw [Nat.add_assoc, Nat.add_comm, Function.iterate_add_apply, htop]
  clear h htop
  obtain ⟨start, names⟩ := p
  cases start with
  | root =>
    have hroot : leave^[more + 1] ⟨.root, []⟩ = root := Function.iterate_fixed rfl _
    rw [hroot]
    exact ⟨rfl, iff_of_true rfl rfl⟩
  | above levels =>
    have hup : ∀ n, leave^[n] ⟨.above levels, []⟩ = ⟨.above (levels + n), []⟩ := by
      intro n
      induction n with
      | zero => rfl
      | succ n ih => rw [Function.iterate_succ_apply', ih]; rfl
    rw [hup]
    refine ⟨rfl, iff_of_false (fun heq => ?_) nofun⟩
    injection heq with heq
    omega

theorem below_shift_iff (p : Place) (up : Nat) (names : List (List Char)) :
    Below (p.shift up names) p ↔ StaysIn p ⟨.above up, names⟩ := by
  rw [Below, StaysIn, shift]
  by_cases h : up ≤ p.names.length
  · have hcut : ∀ kept gone, kept ++ gone = p.names →
        ((p.names <+: kept ++ names ∧ kept ++ names ≠ p.names) ↔
          gone <+: names ∧ names ≠ gone) := by
      rintro kept gone hnames
      rw [← hnames, List.prefix_append_right_inj, Ne, List.append_right_inj]
    rw [leave_iterate_of_le h, and_iff_right rfl, and_iff_right (Or.inr h)]
    exact hcut _ _ (List.take_append_drop ..)
  · have hlt : p.names.length < up := Nat.lt_of_not_le h
    obtain ⟨hnames, hstart⟩ := leave_iterate_of_lt hlt
    rw [hnames, hstart, Nat.sub_eq_zero_of_le (Nat.le_of_lt hlt), List.drop_zero, List.nil_append,
      or_iff_left h]

end Place

open Place

/-- The place that a path leads to. -/
def place (path : String) : Place :=
  (if isAbsolute path then root else here).follow path.toList

/-! ### Joined paths -/

theorem isAbsolute_append {a : String} (h : a ≠ "") (b : String) :
    isAbsolute (a ++ b) = isAbsolute a := by
  have hchars : a.toList ≠ [] := fun hnil => h (String.toList_injective hnil)
  unfold isAbsolute
  rw [String.toList_append, List.head?_append_of_ne_nil _ hchars]

theorem place_of_relative {path : String} (h : isAbsolute path = false) :
    place path = here.follow path.toList := by
  rw [place, h]
  rfl

/-- A relative path is followed from where its base leads. -/
theorem place_join {base path : String} (h : isAbsolute path = false) :
    place (join base path) = (place base).follow path.toList := by
  unfold join
  rw [h, if_neg Bool.false_ne_true]
  by_cases hempty : base = ""
  · subst hempty
    simp only [decide_true, Bool.true_or, if_true]
    rw [String.empty_append, place_of_relative h]
    rfl
  · have hslash : ∀ front : List Char, base.toList = front ++ ['/'] →
        (place base).follow path.toList = place (base ++ path) := by
      intro front hfront
      rw [place, place, isAbsolute_append hempty, String.toList_append, hfront, List.append_assoc,
        List.singleton_append, follow_append_slash, follow_append_slash, follow_nil]
    split
    · next hend =>
      simp only [hempty, decide_false, Bool.false_or, decide_eq_true_eq] at hend
      obtain ⟨front, hfront⟩ := List.getLast?_eq_some_iff.1 hend
      exact (hslash front hfront).symm
    · have hne : base ++ "/" ≠ "" := fun hnil => by
        have hchars := congrArg String.toList hnil
        simp at hchars
      rw [place, place, isAbsolute_append hne, isAbsolute_append hempty, String.append_assoc,
        String.toList_append, String.toList_append]
      exact follow_append_slash _ _ _

/-- What is put to a path can be put to its last part, unless that makes it absolute. -/
theorem join_append (dir name : String) {more : String} (h : more.toList.head? ≠ some '/') :
    join dir name ++ more = join dir (name ++ more) := by
  have hsame : isAbsolute (name ++ more) = isAbsolute name := by
    by_cases hname : name = ""
    · subst hname
      rw [String.empty_append]
      simp [isAbsolute, h]
    · exact isAbsolute_append hname more
  unfold join
  rw [hsame]
  split
  · rfl
  · split <;> simp only [String.append_assoc]

/-- A path taken from a directory leads to something in it exactly if it stays in it. -/
theorem below_join_iff (dir path : String) :
    Below (place (join dir path)) (place dir) ↔ StaysIn (place dir) (place path) := by
  by_cases h : isAbsolute path
  · have hjoin : join dir path = path := by rw [join, if_pos h]
    have hstart : (place path).start = .root := by
      rw [place, if_pos h]
      exact start_follow_root rfl _
    rw [hjoin]
    generalize place path = p at hstart
    obtain ⟨start, names⟩ := p
    cases hstart
    rfl
  · rw [Bool.not_eq_true] at h
    obtain ⟨up, names, hfree, hfrom⟩ := follow_eq_shift (place dir) path.toList
    rw [place_join h, hfrom, place_of_relative h, hfree, below_shift_iff]

end Path

end TypedClient
