import Mathlib.Algebra.Order.Ring.Nat
import Mathlib.Data.List.Forall2
import TypedClient.Formatter

/-! Calls of the formatter that share a flag, with their steps in any order. Of a program that cannot
be started one call tells, and only one, since only one call takes the flag down; a call that reads
the flag after that does not try to start the program. Nothing is said of a program that can be
started. -/

namespace TypedClient.Formatter

/-! ### Steps in any order -/

/-- What a call does in one step. -/
inductive Act where
  | load | spawn | swap
  deriving DecidableEq, Repr

/-- What a call does next. -/
def Stage.act? : Stage → Option Act
  | .waiting => some .load
  | .starting => some .spawn
  | .refused _ => some .swap
  | .done .. => none

/-- Calls that share a flag. -/
structure Pool where
  up : Bool
  calls : List Call
  deriving DecidableEq, Repr

/-- One call makes a step, the others stay as they are. The call is known by its number. -/
inductive Step : Pool → Nat × Act → Pool → Prop where
  | make (up : Bool) (before : List Call) (c : Call) (after : List Call) {act : Act}
    (h : c.stage.act? = some act) :
    Step ⟨up, before ++ c :: after⟩ (before.length, act)
      ⟨(step up c).1, before ++ (step up c).2 :: after⟩

/-- Steps of calls in some order. -/
inductive Runs : Pool → List (Nat × Act) → Pool → Prop where
  | stay (p : Pool) : Runs p [] p
  | step {p q r : Pool} {made : Nat × Act} {trace : List (Nat × Act)} (first : Step p made q)
    (rest : Runs q trace r) : Runs p (made :: trace) r

/-- All calls have returned. -/
def Pool.Finished (p : Pool) : Prop := ∀ c ∈ p.calls, c.stage.act? = none

instance (p : Pool) : Decidable p.Finished :=
  inferInstanceAs (Decidable (∀ c ∈ p.calls, c.stage.act? = none))

/-- The warnings that calls have returned. -/
def warnings (calls : List Call) : List Warning := calls.filterMap fun c => c.result.2

/-- Code to be formatted, and why the program cannot be started for it. -/
structure Request where
  file : String
  code : String
  error : String
  deriving DecidableEq, Repr

def Request.call (r : Request) : Call :=
  { file := r.file, code := r.code, run := .notStarted r.error }

/-- Calls of which none has begun. The flag is up. -/
def Pool.of (requests : List Request) : Pool := ⟨true, requests.map Request.call⟩

variable {p q r : Pool} {trace before after : List (Nat × Act)} {made : Nat × Act} {up : Bool}
  {requests : List Request} {i j : Nat}

theorem Runs.split (h : Runs p (before ++ made :: after) r) :
    ∃ q q', Runs p before q ∧ Step q made q' ∧ Runs q' after r := by
  induction before generalizing p with
  | nil =>
    obtain - | ⟨first, rest⟩ := h
    exact ⟨p, _, .stay p, first, rest⟩
  | cons _ before ih =>
    obtain - | ⟨first, rest⟩ := h
    obtain ⟨q, q', hbefore, hmade, hafter⟩ := ih rest
    exact ⟨q, q', .step first hbefore, hmade, hafter⟩

theorem Runs.trans (h : Runs p before q) (h' : Runs q after r) : Runs p (before ++ after) r := by
  induction h with
  | stay p => exact h'
  | step first rest ih => exact .step first (ih h')

/-- A call that is settled on its own is one that makes all of its steps in a row. -/
theorem runs_settle (up : Bool) (before : List Call) (c : Call) (after : List Call) :
    ∃ trace, Runs ⟨up, before ++ c :: after⟩ trace
      ⟨(settle up c).1, before ++ (settle up c).2 :: after⟩ := by
  have hstep : ∀ (up : Bool) (c : Call), ∃ trace, Runs ⟨up, before ++ c :: after⟩ trace
      ⟨(step up c).1, before ++ (step up c).2 :: after⟩ := by
    intro up c
    cases hact : c.stage.act? with
    | some act => exact ⟨_, .step (.make up before c after hact) (.stay _)⟩
    | none =>
      have hstep : step up c = (up, c) := by
        unfold step
        cases hstage : c.stage with
        | done => rfl
        | waiting | starting | refused => simp [hstage, Stage.act?] at hact
      rw [hstep]
      exact ⟨[], .stay _⟩
  obtain ⟨_, hfirst⟩ := hstep up c
  obtain ⟨_, hsecond⟩ := hstep (step up c).1 (step up c).2
  obtain ⟨_, hthird⟩ := hstep (step (step up c).1 (step up c).2).1
    (step (step up c).1 (step up c).2).2
  exact ⟨_, (hfirst.trans hsecond).trans hthird⟩

/-! ### The end of a run -/

/-- How many steps a call makes at most before it returns. -/
def Stage.left : Stage → Nat
  | .waiting => 3
  | .starting => 2
  | .refused _ => 1
  | .done .. => 0

/-- A call that makes a step has fewer steps left. -/
theorem left_step {c : Call} {act : Act} (h : c.stage.act? = some act) :
    (step up c).2.stage.left < c.stage.left := by
  unfold step
  cases hstage : c.stage with
  | waiting => cases up <;> simp [Stage.left]
  | starting => cases c.run <;> simp [Stage.left]
  | refused error => simp [Stage.left]
  | done code warning => simp [hstage, Stage.act?] at h

/-- The steps that all calls make at most. -/
def Pool.left (p : Pool) : Nat := (p.calls.map fun c => c.stage.left).sum

theorem Step.left_lt (h : Step p made q) : q.left < p.left := by
  obtain ⟨up, before, c, after, hact⟩ := h
  have hc : (step up c).2.stage.left < c.stage.left := left_step hact
  simp only [Pool.left, List.map_append, List.map_cons, List.sum_append, List.sum_cons]
  omega

theorem Runs.length_le (h : Runs p trace q) : trace.length + q.left ≤ p.left := by
  induction h with
  | stay p => simp
  | step first rest ih =>
    have hfirst := first.left_lt
    rw [List.length_cons]
    omega

theorem left_of_requests (requests : List Request) :
    (Pool.of requests).left = 3 * requests.length := by
  induction requests with
  | nil => rfl
  | cons r requests ih =>
    simp only [Pool.of, Pool.left, List.map_cons, List.sum_cons, List.length_cons] at ih ⊢
    rw [ih]
    simp only [Request.call, Stage.left]
    omega

/-- As long as a call has not returned, a step can be made. -/
theorem finished_or_step (p : Pool) : p.Finished ∨ ∃ made q, Step p made q := by
  refine or_iff_not_imp_left.2 fun h => ?_
  simp only [Pool.Finished, not_forall] at h
  obtain ⟨c, hc, hact⟩ := h
  obtain ⟨act, hact⟩ := Option.ne_none_iff_exists'.1 hact
  obtain ⟨up, calls⟩ := p
  obtain ⟨before, after, rfl⟩ := List.append_of_mem hc
  exact ⟨_, _, .make up before c after hact⟩

/-! ### Steps of one call -/

/-- The steps that call number `i` makes at most. -/
def Pool.leftOf (p : Pool) (i : Nat) : Nat := (p.calls[i]?.map fun c => c.stage.left).getD 0

theorem leftOf_le_three (p : Pool) (i : Nat) : p.leftOf i ≤ 3 := by
  unfold Pool.leftOf
  cases p.calls[i]? with
  | none => exact Nat.zero_le 3
  | some c => cases h : c.stage <;> simp [h, Stage.left]

theorem leftOf_middle (up : Bool) (before : List Call) (c : Call) (after : List Call) :
    Pool.leftOf ⟨up, before ++ c :: after⟩ before.length = c.stage.left := by
  simp [Pool.leftOf]

theorem Step.leftOf_le (h : Step p made q) (i : Nat) : q.leftOf i ≤ p.leftOf i := by
  obtain ⟨up, before, c, after, hact⟩ := h
  by_cases hi : i = before.length
  · subst hi
    rw [leftOf_middle, leftOf_middle]
    exact Nat.le_of_lt (left_step hact)
  · refine Nat.le_of_eq ?_
    simp only [Pool.leftOf, List.getElem?_append, List.getElem?_cons]
    split
    · rfl
    · rw [if_neg (by omega), if_neg (by omega)]

theorem Step.leftOf_lt (h : Step p made q) : q.leftOf made.1 < p.leftOf made.1 := by
  obtain ⟨up, before, c, after, hact⟩ := h
  rw [leftOf_middle, leftOf_middle]
  exact left_step hact

theorem Runs.leftOf_le (h : Runs p trace q) (i : Nat) : q.leftOf i ≤ p.leftOf i := by
  induction h with
  | stay p => exact Nat.le_refl _
  | step first rest ih => exact Nat.le_trans ih (first.leftOf_le i)

theorem Runs.leftOf_lt (h : Runs p trace q) (hmade : made ∈ trace) :
    q.leftOf made.1 < p.leftOf made.1 := by
  induction h with
  | stay p => cases hmade
  | step first rest ih =>
    rcases List.mem_cons.1 hmade with rfl | hmade
    · exact Nat.lt_of_le_of_lt (rest.leftOf_le _) first.leftOf_lt
    · exact Nat.lt_of_lt_of_le (ih hmade) (first.leftOf_le _)

/-! ### The flag -/

/-- The flag is never put up again. -/
theorem step_down (c : Call) : (step false c).1 = false := by
  unfold step
  cases c.stage with
  | waiting | refused | done => rfl
  | starting => cases c.run <;> rfl

theorem Step.down (h : Step p made q) (hp : p.up = false) : q.up = false := by
  obtain ⟨up, before, c, after, hact⟩ := h
  obtain rfl : up = false := hp
  exact step_down c

theorem Runs.down (h : Runs p trace q) (hp : p.up = false) : q.up = false := by
  induction h with
  | stay p => exact hp
  | step first rest ih => exact ih (first.down hp)

theorem Step.down_of_swap (h : Step p (i, .swap) q) : q.up = false := by
  generalize hm : (i, Act.swap) = made at h
  obtain ⟨up, before, c, after, hact⟩ := h
  cases hm
  unfold step
  cases hstage : c.stage with
  | refused error => rfl
  | waiting | starting | done => simp [hstage, Stage.act?] at hact

theorem Runs.down_of_swap (h : Runs p trace q) (hswap : (i, .swap) ∈ trace) : q.up = false := by
  obtain ⟨before, after, rfl⟩ := List.append_of_mem hswap
  obtain ⟨q, q', -, hstep, hafter⟩ := h.split
  exact hafter.down hstep.down_of_swap

/-- A call is as it was made when it reads the flag, and has returned if the flag is down. -/
theorem Step.load (h : Step p (i, .load) q) :
    p.leftOf i = 3 ∧ (p.up = false → q.leftOf i = 0) := by
  generalize hm : (i, Act.load) = made at h
  obtain ⟨up, before, c, after, hact⟩ := h
  cases hm
  rw [leftOf_middle, leftOf_middle]
  cases hstage : c.stage with
  | waiting =>
    refine ⟨rfl, ?_⟩
    rintro rfl
    simp [step, hstage, Stage.left]
  | starting | refused | done => simp [hstage, Stage.act?] at hact

/-- A call that reads the flag after it has been taken down does nothing else. -/
theorem Runs.only_load (h : Runs p (before ++ (i, .load) :: after) r)
    (hswap : (j, .swap) ∈ before) {act : Act} (hact : (i, act) ∈ before ++ (i, .load) :: after) :
    act = .load := by
  obtain ⟨q, q', hbefore, hload, hafter⟩ := h.split
  obtain ⟨hthree, hzero⟩ := hload.load
  simp only [List.mem_append, List.mem_cons, Prod.mk.injEq, true_and] at hact
  rcases hact with hmem | rfl | hmem
  · have hlt := hbefore.leftOf_lt hmem
    have hle := leftOf_le_three p i
    dsimp only at hlt
    omega
  · rfl
  · have hlt := hafter.leftOf_lt hmem
    dsimp only at hlt
    rw [hzero (hbefore.down_of_swap hswap)] at hlt
    omega

/-! ### What calls return -/

/-- How a call of a request may stand. It returns without a warning only where the flag is down, and
with one when it has taken the flag down. -/
inductive Stands (r : Request) (up : Bool) : Stage → Prop where
  | waiting : Stands r up .waiting
  | starting : Stands r up .starting
  | refused : Stands r up (.refused r.error)
  | silent (h : up = false) : Stands r up (.done r.code none)
  | told (h : up = false) : Stands r up (.done r.code (some (.formatterUnavailable r.error)))

/-- A call of a request. -/
structure Serves (up : Bool) (r : Request) (c : Call) : Prop where
  code : c.code = r.code
  run : c.run = .notStarted r.error
  stands : Stands r up c.stage

theorem serves_call (r : Request) : Serves true r r.call := ⟨rfl, rfl, .waiting⟩

theorem Stands.later {r : Request} {s : Stage} {up' : Bool} (h : Stands r up s)
    (hup : up = false → up' = false) : Stands r up' s := by
  cases h with
  | waiting => exact .waiting
  | starting => exact .starting
  | refused => exact .refused
  | silent hdown => exact .silent (hup hdown)
  | told hdown => exact .told (hup hdown)

/-- A call still serves its request when others have made steps. -/
theorem Serves.later {r : Request} {c : Call} {up' : Bool} (h : Serves up r c)
    (hup : up = false → up' = false) : Serves up' r c :=
  ⟨h.code, h.run, h.stands.later hup⟩

/-- A step of a call that serves a request. It returns a warning exactly if it takes the flag
down. -/
structure Serves.Stepped (up : Bool) (r : Request) (c : Call) : Prop where
  serves : Serves (step up c).1 r (step up c).2
  down : up = false → (step up c).1 = false
  quiet : c.result.2 = none
  warning : (step up c).2.result.2 =
    if up = true ∧ (step up c).1 = false then some (.formatterUnavailable r.error) else none

theorem Serves.step {r : Request} {c : Call} {act : Act} (h : Serves up r c)
    (hact : c.stage.act? = some act) : Serves.Stepped up r c := by
  obtain ⟨file, code, run, stage⟩ := c
  obtain ⟨hcode, hrun, hstands⟩ := h
  dsimp only at hcode hrun hstands
  subst hcode hrun
  cases hstands with
  | waiting =>
    cases up with
    | true => exact ⟨⟨rfl, rfl, .starting⟩, nofun, rfl, rfl⟩
    | false => exact ⟨⟨rfl, rfl, .silent rfl⟩, fun _ => rfl, rfl, rfl⟩
  | starting => exact ⟨⟨rfl, rfl, .refused⟩, id, rfl, by cases up <;> rfl⟩
  | refused =>
    cases up with
    | true => exact ⟨⟨rfl, rfl, .told rfl⟩, nofun, rfl, rfl⟩
    | false => exact ⟨⟨rfl, rfl, .silent rfl⟩, fun _ => rfl, rfl, rfl⟩
  | silent | told => cases hact

/-- The warnings of calls: none as long as the flag is up, and one when it is down. -/
def Told (requests : List Request) (p : Pool) : Prop :=
  if p.up then warnings p.calls = []
  else ∃ r ∈ requests, warnings p.calls = [.formatterUnavailable r.error]

/-- Calls of requests. -/
structure Served (requests : List Request) (p : Pool) : Prop where
  calls : List.Forall₂ (Serves p.up) requests p.calls
  told : Told requests p

theorem served_of (requests : List Request) : Served requests (Pool.of requests) where
  calls := by
    rw [Pool.of, List.forall₂_map_right_iff]
    exact List.forall₂_same.2 fun r _ => serves_call r
  told := by
    refine List.filterMap_eq_nil_iff.2 fun c hc => ?_
    obtain ⟨r, -, rfl⟩ := List.mem_map.1 hc
    rfl

theorem warnings_middle (before : List Call) (c : Call) (after : List Call) :
    warnings (before ++ c :: after) =
      warnings before ++ (c.result.2.toList ++ warnings after) := by
  rw [warnings, List.filterMap_append]
  cases h : c.result.2 <;> simp [h, warnings]

theorem Told.step {r : Request} {c : Call} {before after : List Call} (hr : r ∈ requests)
    (hc : Serves.Stepped up r c) (h : Told requests ⟨up, before ++ c :: after⟩) :
    Told requests ⟨(step up c).1, before ++ (step up c).2 :: after⟩ := by
  unfold Told at h ⊢
  dsimp only at h ⊢
  rw [warnings_middle, hc.quiet, Option.toList_none, List.nil_append] at h
  rw [warnings_middle, hc.warning]
  cases up with
  | true =>
    obtain ⟨hbefore, hafter⟩ := List.append_eq_nil_iff.1 h
    rw [hbefore, hafter]
    cases (Formatter.step true c).1 with
    | true => rfl
    | false => exact ⟨r, hr, rfl⟩
  | false =>
    rw [hc.down rfl]
    exact h

theorem Served.step (h : Served requests p) (hstep : Step p made q) : Served requests q := by
  obtain ⟨up, before, c, after, hact⟩ := hstep
  have hbefore := List.forall₂_take_append _ _ _ h.calls
  obtain ⟨r, later, hr, hafter, hdrop⟩ :=
    List.forall₂_cons_right_iff.1 (List.forall₂_drop_append _ _ _ h.calls)
  have hsplit := List.take_append_drop before.length requests
  rw [hdrop] at hsplit
  have hc := hr.step hact
  refine ⟨?_, h.told.step (hsplit ▸ List.mem_append_right _ List.mem_cons_self) hc⟩
  rw [← hsplit]
  exact List.rel_append (hbefore.imp fun _ _ hs => hs.later hc.down)
    (.cons hc.serves (hafter.imp fun _ _ hs => hs.later hc.down))

theorem Served.runs (h : Served requests p) (hruns : Runs p trace q) : Served requests q := by
  induction hruns with
  | stay p => exact h
  | step first rest ih => exact ih (h.step first)

/-- Where all calls have returned, the flag is down, unless there was no call. -/
theorem Served.down (h : Served requests p) (hfinished : p.Finished) (hne : requests ≠ []) :
    p.up = false := by
  obtain ⟨r, rest, rfl⟩ := List.exists_cons_of_ne_nil hne
  obtain ⟨c, calls, hc, -, hcalls⟩ := List.forall₂_cons_left_iff.1 h.calls
  have hact : c.stage.act? = none := hfinished c (hcalls ▸ List.mem_cons_self)
  have hstands := hc.stands
  generalize c.stage = stage at hact hstands
  cases hstands with
  | waiting | starting | refused => cases hact
  | silent hdown | told hdown => exact hdown

theorem Served.told_of_down (h : Served requests p) (hdown : p.up = false) :
    ∃ r ∈ requests, warnings p.calls = [.formatterUnavailable r.error] := by
  have htold := h.told
  rwa [Told, hdown, if_neg Bool.false_ne_true] at htold

theorem Serves.code_of_done {r : Request} {c : Call} (h : Serves up r c) {code : String}
    {warning : Option Warning} (hdone : c.stage = .done code warning) : code = r.code := by
  have hstands := h.stands
  rw [hdone] at hstands
  cases hstands <;> rfl

/-- **Of a program that cannot be started, calls that share a flag tell once, whatever the order of
their steps.** A call returns its code as it was; when all calls have returned, there is one warning,
that of one of them; a call that reads the flag after it has been taken down does not try to start
the program. As long as a call has not returned there is a step to make, and a call makes three at
most. -/
theorem unavailable_told_once (h : Runs (Pool.of requests) trace q) :
    List.Forall₂ (fun r c => ∀ code warning, c.stage = .done code warning → code = r.code)
        requests q.calls ∧
      (q.Finished → requests ≠ [] →
        ∃ r ∈ requests, warnings q.calls = [.formatterUnavailable r.error]) ∧
      (∀ before i after, trace = before ++ (i, .load) :: after → (∃ j, (j, .swap) ∈ before) →
        (i, .spawn) ∉ trace) ∧
      (q.Finished ∨ ∃ made q', Step q made q') ∧ trace.length ≤ 3 * requests.length := by
  have hserved := (served_of requests).runs h
  refine ⟨hserved.calls.imp fun r c hc code warning => hc.code_of_done,
    fun hfinished hne => hserved.told_of_down (hserved.down hfinished hne), ?_,
    finished_or_step q, ?_⟩
  · rintro before i after rfl ⟨j, hswap⟩ hspawn
    cases h.only_load hswap hspawn
  · have hle := h.length_le
    rw [left_of_requests] at hle
    omega

/-- Code for three files. -/
def crowd : List Request :=
  [⟨"Pet.ts", "a", "no program"⟩, ⟨"Owner.ts", "b", "gone"⟩, ⟨"index.ts", "c", "no program"⟩]

/-- Two calls find out that the program cannot be started. The second one takes the flag down before
the first one can, and the third one reads it in between. -/
def crowdTrace : List (Nat × Act) :=
  [(0, .load), (1, .load), (0, .spawn), (1, .spawn), (1, .swap), (2, .load), (0, .swap)]

/-- What is returned then: the second call tells. -/
def crowdReturned : Pool :=
  ⟨false, [{ crowd[0].call with stage := .done "a" none },
    { crowd[1].call with stage := .done "b" (some (.formatterUnavailable "gone")) },
    { crowd[2].call with stage := .done "c" none }]⟩

theorem unavailable_told_once_crowd : Runs (Pool.of crowd) crowdTrace crowdReturned ∧
    crowdReturned.Finished ∧ crowd ≠ [] ∧
    (∃ r ∈ crowd, warnings crowdReturned.calls = [.formatterUnavailable r.error]) ∧
    (∃ j, (j, .swap) ∈ crowdTrace.take 5) ∧ (2, .spawn) ∉ crowdTrace := by
  have h : Runs (Pool.of crowd) crowdTrace crowdReturned :=
    .step (.make _ [] _ [_, _] rfl) <| .step (.make _ [_] _ [_] rfl) <|
    .step (.make _ [] _ [_, _] rfl) <| .step (.make _ [_] _ [_] rfl) <|
    .step (.make _ [_] _ [_] rfl) <| .step (.make _ [_, _] _ [] rfl) <|
    .step (.make _ [] _ [_, _] rfl) <| .stay _
  obtain ⟨-, hwarnings, hload, -⟩ := unavailable_told_once h
  have hswap : ∃ j, (j, .swap) ∈ crowdTrace.take 5 := ⟨1, by decide⟩
  exact ⟨h, by decide, by decide, hwarnings (by decide) (by decide), hswap,
    hload (crowdTrace.take 5) 2 (crowdTrace.drop 6) rfl hswap⟩

end TypedClient.Formatter
