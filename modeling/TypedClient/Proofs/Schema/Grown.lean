import TypedClient.Proofs.Document.Forest
import TypedClient.Proofs.Schema.Similar

/-! An arena after any schemas were classified in it, one after the other, those included that
failed part-way. It only ever grows, and by whole trees: what a failed call has made stays behind
as trees of their own. Every node is proper: an enumeration lists a literal and never null, and a
combination has a member. -/

namespace TypedClient

/-! ### Arenas that grew -/

namespace Arena

theorem Kept.trans {a b c : Arena} (h : a.Kept b) (h' : b.Kept c) : a.Kept c :=
  fun x node hx => h' x node (h x node hx)

namespace Trees

variable {start arena : Arena} {roots : List NodeId}

theorem kept (h : Trees start arena roots) : start.Kept arena := by
  induction h with
  | none => exact fun _ _ hx => hx
  | push node _ ih => exact ih.trans (kept_push _ node)

/-- The root of the youngest tree is the last node. -/
theorem size_eq_of_concat {id : NodeId} (h : Trees start arena (roots ++ [id])) :
    arena.size = id + 1 := by
  generalize hr : roots ++ [id] = all at h
  cases h with
  | none => simp at hr
  | push node h =>
    obtain ⟨-, hid⟩ := List.append_inj' hr rfl
    simp only [List.cons.injEq, and_true] at hid
    rw [size_push, hid]

end Trees

end Arena

/-! ### Proper nodes -/

/-- What an enumeration and a combination never lack. -/
def SchemaKind.Proper : SchemaKind → Prop
  | .enum _ literals => literals ≠ [] ∧ Json.null ∉ literals
  | .combination _ members => members ≠ []
  | _ => True

namespace Arena

def Proper (a : Arena) : Prop := ∀ id node, a.get? id = some node → node.kind.Proper

theorem proper_initial : Proper {} := by
  intro id node h
  simp [get?] at h

theorem Proper.push {a : Arena} (h : a.Proper) {node : SchemaNode} (hn : node.kind.Proper) :
    (a.push node).Proper := by
  intro id other ho
  rw [get?_push] at ho
  by_cases hid : id = a.size
  · simp only [hid, if_true, Option.some.injEq] at ho
    exact ho ▸ hn
  · simp only [hid, if_false] at ho
    exact h id other ho

end Arena

namespace Building

variable {α β : Type} {good : α → Prop} {fine : β → Prop}

/-- Steps that leave proper nodes behind, also where they fail, and give `good` values only. -/
def Tidy (m : Building α) (good : α → Prop) : Prop :=
  ∀ arena : Arena, arena.Proper →
    (outcome m arena).2.Proper ∧ ∀ a, (outcome m arena).1 = .ok a → good a

theorem Tidy.pure {a : α} (h : good a) : Tidy (Pure.pure a) good := by
  intro arena ha
  refine ⟨ha, fun b hb => ?_⟩
  simp only [outcome_pure, Except.ok.injEq] at hb
  exact hb ▸ h

theorem Tidy.imp {m : Building α} {good better : α → Prop} (hm : Tidy m better)
    (h : ∀ a, better a → good a) : Tidy m good :=
  fun arena ha => ⟨(hm arena ha).1, fun a hr => h a ((hm arena ha).2 a hr)⟩

theorem Tidy.bind {m : Building α} {f : α → Building β} (hm : Tidy m good)
    (hf : ∀ a, good a → Tidy (f a) fine) : Tidy (m >>= f) fine := by
  intro arena ha
  have h := hm arena ha
  rw [outcome_bind]
  rcases hr : outcome m arena with ⟨e | a, grown⟩
  · rw [hr] at h
    exact ⟨h.1, fun b hb => by simp at hb⟩
  · rw [hr] at h
    exact hf a (h.2 a rfl) grown h.1

/-- The same where nothing is told of the value in the middle. -/
theorem Tidy.through {m : Building α} {f : α → Building β} (hm : Tidy m fun _ => True)
    (hf : ∀ a, Tidy (f a) fine) : Tidy (m >>= f) fine :=
  hm.bind fun a _ => hf a

theorem Tidy.map {m : Building α} (f : α → β) (hm : Tidy m fun a => fine (f a)) :
    Tidy (f <$> m) fine := by
  rw [map_eq_pure_bind]
  exact hm.bind fun a ha => .pure ha

theorem tidy_ofExcept (x : Except Failure α) : Tidy (ofExcept x) fun _ => True := by
  cases x with
  | ok a => exact .pure trivial
  | error e =>
    intro arena ha
    exact ⟨ha, fun _ _ => trivial⟩

theorem tidy_add {node : SchemaNode} (h : node.kind.Proper) : Tidy (add node) fun _ => True :=
  fun _ ha => ⟨ha.push h, fun _ _ => trivial⟩

end Building

namespace Schema

open Building

theorem null_not_mem_literals (fields : Assoc String Json) : Json.null ∉ literals fields := by
  simp [literals, Json.isNull]

theorem proper_of_plainKind? {fields : Assoc String Json} {declared : Option String}
    {kind : SchemaKind} (h : plainKind? fields declared = some kind) : kind.Proper := by
  obtain ⟨p, -, rfl⟩ := Option.map_eq_some_iff.1 h
  by_cases hl : literals fields = []
  · simp [hl, SchemaKind.Proper]
  · simp [hl, SchemaKind.Proper, null_not_mem_literals]

/-- A combination is only told where it has members. -/
theorem ne_nil_of_combination? {fields : Assoc String Json} {how : Combination}
    {members : List Json} (h : combination? fields = some (how, members)) : members ≠ [] := by
  obtain ⟨how', -, h⟩ := List.exists_of_findSome?_eq_some h
  split at h
  · simp at h
  · simp at h
  · next hne _ =>
    cases h
    exact fun hm => hne (by rw [hm])

mutual

theorem tidy_classify (v : Json) (location : String) :
    Tidy (classify v location) fun _ => True := by
  match v with
  | .obj fields =>
    rw [classify]
    refine (tidy_ofExcept _).bind fun declared _ => ?_
    refine (tidy_classifyHints fields location).bind fun hints _ => ?_
    refine (tidy_classifyKind fields _ location).bind fun kind hkind => ?_
    exact tidy_add hkind
  | .null | .bool _ | .num _ | .str _ | .arr _ =>
    rw [classify]
    · exact tidy_add trivial
    · simp
termination_by (v.size, 0)
decreasing_by all_goals simp only [Json.size]; omega

theorem tidy_classifyHints (fields : Assoc String Json) (location : String) :
    Tidy (classifyHints fields location) fun _ => True := by
  rw [classifyHints]
  refine Tidy.through ?_ fun definition => ?_
  · split
    · next v hv =>
      have hlt := size_lt_of_hint? hv
      exact (tidy_classify v _).map some
    · exact .pure trivial
  refine Tidy.through ?_ fun arguments => ?_
  · split
    · next vs hvs =>
      have hlt := sizes_lt_of_hint? hvs
      exact (tidy_classifyAll vs _ 0).imp fun _ _ => trivial
    · exact .pure trivial
  exact (tidy_ofExcept _).bind fun _ _ => .pure trivial
termination_by (Json.fieldSizes fields, 1)
decreasing_by all_goals omega

theorem tidy_classifyKind (fields : Assoc String Json) (declared : Option String)
    (location : String) : Tidy (classifyKind fields declared location) SchemaKind.Proper := by
  rw [classifyKind]
  split
  · exact .pure trivial
  · split
    · exact ((tidy_classifyObject fields location).map SchemaKind.object)
    · split
      · split
        · next v hv =>
          have hlt := Json.size_lt_of_get? hv
          exact (tidy_classify v _).bind fun id _ => .pure trivial
        · exact .pure trivial
      · split
        · next kind hkind => exact .pure (proper_of_plainKind? hkind)
        · split
          · next how members hm =>
            have hlt := sizes_lt_of_combination? hm
            refine (tidy_classifyAll members _ 0).bind fun ids hids => .pure ?_
            intro hnil
            apply ne_nil_of_combination? hm
            rw [← List.length_eq_zero_iff, ← hids, hnil]
            rfl
          · exact .pure trivial
termination_by (Json.fieldSizes fields, 2)
decreasing_by all_goals omega

theorem tidy_classifyObject (fields : Assoc String Json) (location : String) :
    Tidy (classifyObject fields location) fun _ => True := by
  rw [classifyObject]
  refine Tidy.through ?_ fun properties => ?_
  · split
    · next members hm =>
      have hlt := fieldSizes_lt_of_get? hm
      exact tidy_classifyMembers members location
    · exact .pure trivial
  refine Tidy.through ?_ fun allOf => ?_
  · split
    · next members hm =>
      have hlt := sizes_lt_of_items? hm
      exact (tidy_classifyAll members _ 0).imp fun _ _ => trivial
    · exact .pure trivial
  refine Tidy.through ?_ fun additional => .pure trivial
  split
  · exact .pure trivial
  · exact .pure trivial
  · exact .pure trivial
  · exact .pure trivial
  · next v _ _ _ hv =>
    have hlt := Json.size_lt_of_get? hv
    exact (tidy_classify v _).bind fun id _ => .pure trivial
termination_by (Json.fieldSizes fields, 1)
decreasing_by all_goals omega

theorem tidy_classifyMembers (members : List (String × Json)) (location : String) :
    Tidy (classifyMembers members location) fun _ => True := by
  match members with
  | [] =>
    rw [classifyMembers]
    exact .pure trivial
  | (name, v) :: rest =>
    rw [classifyMembers]
    refine (tidy_classify v _).bind fun id _ => ?_
    exact (tidy_classifyMembers rest location).bind fun ids _ => .pure trivial
termination_by (Json.fieldSizes members, 0)
decreasing_by all_goals simp only [Json.fieldSizes]; omega

/-- One node for each schema of a list. -/
theorem tidy_classifyAll (vs : List Json) (location : String) (index : Nat) :
    Tidy (classifyAll vs location index) fun ids => ids.length = vs.length := by
  match vs with
  | [] =>
    rw [classifyAll]
    exact .pure rfl
  | v :: rest =>
    rw [classifyAll]
    refine (tidy_classify v _).bind fun id _ => ?_
    refine (tidy_classifyAll rest location (index + 1)).bind fun ids hids => .pure ?_
    simp [hids]
termination_by (Json.sizes vs, 0)
decreasing_by all_goals simp only [Json.sizes]; omega

end

/-! ### Calls in a row -/

/-- The arena after these schemas were classified, each with the place where it stands; some of the
calls may have failed. -/
def grown (calls : List (Json × String)) : Arena :=
  calls.foldl (fun arena call => (outcome (classify call.1 call.2) arena).2) {}

theorem grown_concat (calls : List (Json × String)) (call : Json × String) :
    grown (calls ++ [call]) = (outcome (classify call.1 call.2) (grown calls)).2 := by
  simp [grown]

/-- One call adds trees, also where it fails. -/
theorem trees_of_call (v : Json) (location : String) (arena : Arena) (before : List NodeId)
    {start : Arena} (h : Arena.Trees start arena before) :
    ∃ roots, Arena.Trees start (outcome (classify v location) arena).2 roots := by
  have hrun := plants_classify v location before start arena h
  rcases ho : outcome (classify v location) arena with ⟨e | id, after⟩
  · rw [ho] at hrun
    exact hrun
  · rw [ho] at hrun
    exact ⟨_, hrun⟩

theorem trees_grown (calls : List (Json × String)) :
    ∃ roots, Arena.Trees {} (grown calls) roots := by
  induction calls using List.reverseRecOn with
  | nil => exact ⟨[], .none⟩
  | append_singleton calls call ih =>
    obtain ⟨before, h⟩ := ih
    rw [grown_concat]
    exact trees_of_call call.1 call.2 _ before h

theorem kept_grown (calls rest : List (Json × String)) :
    (grown calls).Kept (grown (calls ++ rest)) := by
  induction rest using List.reverseRecOn with
  | nil =>
    rw [List.append_nil]
    exact fun _ _ h => h
  | append_singleton rest call ih =>
    rw [← List.append_assoc, grown_concat]
    obtain ⟨roots, h⟩ := trees_of_call call.1 call.2 _ [] (Arena.Trees.none)
    exact ih.trans h.kept

theorem proper_grown (calls : List (Json × String)) : (grown calls).Proper := by
  induction calls using List.reverseRecOn with
  | nil => exact Arena.proper_initial
  | append_singleton calls call ih =>
    rw [grown_concat]
    exact (tidy_classify call.1 call.2 _ ih).1

theorem size_of_classify {v : Json} {location : String} {arena : Arena} {id : NodeId}
    (h : (outcome (classify v location) arena).1 = .ok id) :
    (outcome (classify v location) arena).2.size = id + 1 := by
  have hrun := plants_classify v location [] arena arena .none
  rcases ho : outcome (classify v location) arena with ⟨e | root, after⟩
  · simp [ho] at h
  · rw [ho] at hrun h
    cases h
    exact hrun.size_eq_of_concat

/-- The arena after any calls is an append-only forest, whether they failed or not. Later calls
leave every node as it is; a call that succeeds gives the last node; the nodes in a node are older
than it, and stand in no other place of any node; an enumeration lists a literal and never null, and
a combination has a member. -/
theorem grown_append_only (calls : List (Json × String)) :
    (∀ rest id node, (grown calls).get? id = some node →
      (grown (calls ++ rest)).get? id = some node) ∧
    (∀ v location id, (outcome (classify v location) (grown calls)).1 = .ok id →
      id + 1 = (grown (calls ++ [(v, location)])).size) ∧
    (∀ id node, (grown calls).get? id = some node → ∀ child ∈ node.children, child < id) ∧
    (grown calls).allChildren.Nodup ∧
    ∀ id node, (grown calls).get? id = some node →
      (∀ p literals, node.kind = .enum p literals → literals ≠ [] ∧ Json.null ∉ literals) ∧
      ∀ how members, node.kind = .combination how members → members ≠ [] := by
  obtain ⟨roots, htrees⟩ := trees_grown calls
  refine ⟨fun rest => kept_grown calls rest, fun v location id hid => ?_,
    fun id node hnode child hc => ?_, (List.nodup_append.1 htrees.nodup).2.1,
    fun id node hnode => ?_⟩
  · rw [grown_concat, size_of_classify hid]
  · apply htrees.lt_of_mem_children
    simpa [Arena.get, hnode] using hc
  · have hproper := proper_grown calls id node hnode
    constructor
    · intro p literals hkind
      rwa [hkind] at hproper
    · intro how members hkind
      rwa [hkind] at hproper

end Schema

end TypedClient
