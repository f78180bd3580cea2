import TypedClient.Proofs.Outcome
import TypedClient.Proofs.Path.Names

/-! The ways that a path passes in a file tree. They are told by the names in the path alone; the
tree only says whether it can be followed, which it can where directories stand at all ways that are
passed before the last piece is followed. So what is read at a path depends on what stands at the
ways that it passes, and on nothing else. -/

namespace TypedClient.FileTree

open TypedClient.Path

/-! ### Ways -/

/-- Where a piece leads from a way. -/
def step (way : Way) (piece : String) : Way :=
  if isIdle piece then way else if piece = ".." then way.dropLast else way ++ [piece]

theorem step_dot (way : Way) : step way "." = way := rfl

/-- The ways from which pieces are followed. -/
def passed : Way → List String → List Way
  | _, [] => []
  | way, piece :: rest => way :: passed (step way piece) rest

def reached (way : Way) (pieces : List String) : Way := pieces.foldl step way

/-- All ways along pieces, the last one included. -/
def trail (way : Way) (pieces : List String) : List Way := passed way pieces ++ [reached way pieces]

@[simp] theorem reached_nil (way : Way) : reached way [] = way := rfl

@[simp] theorem reached_cons (way : Way) (piece : String) (rest : List String) :
    reached way (piece :: rest) = reached (step way piece) rest := rfl

theorem reached_append (way : Way) (ps qs : List String) :
    reached way (ps ++ qs) = reached (reached way ps) qs := List.foldl_append

theorem passed_append (way : Way) (ps qs : List String) :
    passed way (ps ++ qs) = passed way ps ++ passed (reached way ps) qs := by
  induction ps generalizing way with
  | nil => rfl
  | cons p ps ih => rw [List.cons_append, passed, ih]; rfl

theorem passed_concat (way : Way) (ps : List String) (piece : String) :
    passed way (ps ++ [piece]) = trail way ps := passed_append way ps [piece]

theorem mem_trail {v way : Way} {ps : List String} :
    v ∈ trail way ps ↔ v ∈ passed way ps ∨ v = reached way ps := by
  rw [trail, List.mem_append, List.mem_singleton]

theorem trail_cons (way : Way) (piece : String) (rest : List String) :
    trail way (piece :: rest) = way :: trail (step way piece) rest := rfl

theorem start_mem_trail (way : Way) (ps : List String) : way ∈ trail way ps := by
  cases ps with
  | nil => exact List.mem_singleton.2 rfl
  | cons p ps => exact List.mem_cons_self

theorem start_mem_passed (way : Way) {ps : List String} (h : ps ≠ []) : way ∈ passed way ps := by
  cases ps with
  | nil => exact absurd rfl h
  | cons p ps => exact List.mem_cons_self

theorem mem_trail_append {v way : Way} {ps qs : List String} :
    v ∈ trail way (ps ++ qs) ↔ v ∈ trail way ps ∨ v ∈ trail (reached way ps) qs := by
  have hjoined : v ∈ trail way (ps ++ qs) ↔ v ∈ passed way ps ∨ v ∈ trail (reached way ps) qs := by
    rw [mem_trail, passed_append, reached_append, List.mem_append, or_assoc, ← mem_trail]
  have hfirst : v ∈ trail way ps ↔ v ∈ passed way ps ∨ v = reached way ps := mem_trail
  rw [hjoined, hfirst, or_assoc]
  refine or_congr_right ⟨Or.inr, fun h => h.elim ?_ id⟩
  rintro rfl
  exact start_mem_trail _ qs

theorem reached_filter (way : Way) (ps : List String) :
    reached way (ps.filter fun piece => !isIdle piece) = reached way ps := by
  induction ps generalizing way with
  | nil => rfl
  | cons p ps ih =>
    rw [List.filter_cons]
    cases hp : isIdle p with
    | true => rw [reached_cons, step, if_pos hp]; exact ih way
    | false => exact ih _

/-- Pieces that say nothing lead to no other ways. -/
theorem mem_trail_filter {v way : Way} {ps : List String} :
    v ∈ trail way (ps.filter fun piece => !isIdle piece) ↔ v ∈ trail way ps := by
  induction ps generalizing way with
  | nil => rfl
  | cons p ps ih =>
    rw [List.filter_cons, trail_cons]
    cases hp : isIdle p with
    | true =>
      have hstep : step way p = way := if_pos hp
      rw [hstep, List.mem_cons, ← ih]
      exact ⟨.inr, fun h => h.elim (fun h => h ▸ start_mem_trail way _) id⟩
    | false =>
      rw [if_pos (by rfl), trail_cons, List.mem_cons, List.mem_cons, ih]

/-! ### Paths -/

/-- The way that a path leads to. -/
def target (path : String) : Way := reached [] (piecesOf path)

/-- The ways that a path passes, the last one included. -/
def visits (path : String) : List Way := trail [] (piecesOf path)

theorem filter_piecesOf (path : String) :
    (piecesOf path).filter (fun piece => !isIdle piece) = names path.toList := rfl

theorem target_eq (path : String) : target path = reached [] (names path.toList) := by
  rw [← filter_piecesOf, reached_filter]
  rfl

theorem mem_visits {v : Way} {path : String} :
    v ∈ visits path ↔ v ∈ trail [] (names path.toList) := by
  rw [← filter_piecesOf, mem_trail_filter]
  rfl

theorem target_mem_visits (path : String) : target path ∈ visits path :=
  mem_trail.2 (.inr rfl)

/-- Paths with the same names pass the same ways. -/
theorem visits_congr {path path' : String} (h : names path.toList = names path'.toList) :
    target path = target path' ∧ ∀ v, v ∈ visits path ↔ v ∈ visits path' := by
  rw [target_eq, target_eq, h]
  exact ⟨rfl, fun v => by rw [mem_visits, mem_visits, h]⟩

/-! ### Following -/

variable {t t' : FileTree} {way : Way} {pieces : List String} {path text : String}

theorem entry?_nil (t : FileTree) : t.entry? [] = some .directory := if_pos rfl

theorem follow_cons (t : FileTree) (way : Way) (piece : String) (rest : List String) :
    t.follow way (piece :: rest) = match t.entry? way with
      | none => .error .missing
      | some (.file _) => .error .notDirectory
      | some .directory => t.follow (step way piece) rest := by
  rw [follow]
  cases t.entry? way with
  | none => rfl
  | some e =>
    cases e with
    | file => rfl
    | directory =>
      rw [step, isIdle]
      dsimp only
      split
      · rfl
      · split <;> rfl

/-- Pieces can be followed exactly where directories stand at the ways that are passed. -/
theorem follow_eq_ok {dest : Way} : t.follow way pieces = .ok dest ↔
    (∀ v ∈ passed way pieces, t.entry? v = some .directory) ∧ dest = reached way pieces := by
  induction pieces generalizing way with
  | nil => exact ⟨fun h => ⟨fun v hv => absurd hv List.not_mem_nil, (Except.ok.inj h).symm⟩,
      fun h => congrArg Except.ok h.2.symm⟩
  | cons piece rest ih =>
    rw [follow_cons, passed, List.forall_mem_cons, and_assoc, reached_cons, ← ih]
    cases hway : t.entry? way with
    | none => simp
    | some e => cases e <;> simp

/-- Where directories stand at some of these ways and nothing at others, pieces are not found. -/
theorem follow_of_missing
    (h : ∀ v ∈ passed way pieces, t.entry? v = some .directory ∨ t.entry? v = none)
    (hmissing : ∃ v ∈ passed way pieces, t.entry? v = none) :
    t.follow way pieces = .error .missing := by
  induction pieces generalizing way with
  | nil =>
    obtain ⟨v, hv, -⟩ := hmissing
    exact absurd hv List.not_mem_nil
  | cons piece rest ih =>
    rw [passed, List.forall_mem_cons] at h
    rw [follow_cons]
    rcases h.1 with hway | hway
    · rw [hway]
      obtain ⟨v, hv, hnone⟩ := hmissing
      rcases List.mem_cons.1 hv with rfl | hv
      · rw [hway] at hnone
        cases hnone
      · exact ih h.2 ⟨v, hv, hnone⟩
    · rw [hway]

/-! ### Reading -/

/-- What is found where a path can be followed. -/
theorem read_of_directories (hpath : path ≠ "")
    (h : ∀ v ∈ passed [] (piecesOf path), t.entry? v = some .directory) :
    t.read path = .ok text ↔ t.entry? (target path) = some (.file text) := by
  unfold read locate
  rw [if_neg hpath, follow_eq_ok.2 ⟨h, rfl⟩]
  change _ ↔ t.entry? (reached [] (piecesOf path)) = some (.file text)
  dsimp only [bind, Except.bind]
  rcases t.entry? (reached [] (piecesOf path)) with _ | _ | other
  · simp [throw, throwThe, MonadExceptOf.throw]
  · simp [throw, throwThe, MonadExceptOf.throw]
  · simp [pure, Except.pure]

theorem read_eq_ok : t.read path = .ok text ↔
    path ≠ "" ∧ (∀ v ∈ passed [] (piecesOf path), t.entry? v = some .directory) ∧
      t.entry? (target path) = some (.file text) := by
  constructor
  · intro hread
    obtain ⟨dest, hlocate, -⟩ := except_bind_eq_ok.1 hread
    unfold locate at hlocate
    split at hlocate
    · cases hlocate
    · next hpath =>
      have hall := (follow_eq_ok.1 hlocate).1
      exact ⟨hpath, hall, (read_of_directories hpath hall).1 hread⟩
  · rintro ⟨hpath, hall, hentry⟩
    exact (read_of_directories hpath hall).2 hentry

/-- A path leads to a directory where directories stand at all ways that it passes. -/
theorem isDirectory_iff : t.isDirectory path = true ↔
    path ≠ "" ∧ ∀ v ∈ visits path, t.entry? v = some .directory := by
  unfold isDirectory locate
  by_cases hpath : path = ""
  · rw [if_pos hpath]
    exact ⟨fun h => absurd h Bool.false_ne_true, fun h => absurd hpath h.1⟩
  · rw [if_neg hpath, and_iff_right hpath]
    cases hfollow : t.follow [] (piecesOf path) with
    | error e =>
      refine ⟨fun h => absurd h Bool.false_ne_true, fun h => ?_⟩
      rw [follow_eq_ok.2 ⟨fun v hv => h v (mem_trail.2 (.inl hv)), rfl⟩] at hfollow
      cases hfollow
    | ok dest =>
      obtain ⟨hall, rfl⟩ := follow_eq_ok.1 hfollow
      rw [beq_iff_eq]
      refine ⟨fun h v hv => ?_, fun h => h _ (target_mem_visits path)⟩
      rcases mem_trail.1 hv with hv | rfl
      · exact hall v hv
      · exact h

end TypedClient.FileTree
