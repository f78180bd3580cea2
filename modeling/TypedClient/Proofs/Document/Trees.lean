import TypedClient.Document.Reader
import TypedClient.Proofs.Outcome

/-! Arenas grow by whole trees. Classifying a schema adds one tree, whose root is the node of the
schema: a node that is pushed takes the last roots, in order, as its children. So much holds of a
failed call too, which leaves the trees that it has made. -/

namespace TypedClient

/-- An arena that has grown out of `start` by trees with these roots. -/
inductive Arena.Trees (start : Arena) : Arena → List NodeId → Prop
  | none : Trees start start []
  | push {arena : Arena} {roots : List NodeId} (node : SchemaNode)
      (h : Trees start arena (roots ++ node.children)) :
      Trees start (arena.push node) (roots ++ [arena.size])

namespace Building

variable {α β : Type} {before : List NodeId}

/-- Steps that come upon the roots `before` and leave the roots `after`. -/
def Plants (before : List NodeId) (m : Building α) (after : α → List NodeId) : Prop :=
  ∀ start arena, Arena.Trees start arena before →
    match outcome m arena with
    | (.ok a, grown) => Arena.Trees start grown (after a)
    | (.error _, grown) => ∃ roots, Arena.Trees start grown roots

theorem Plants.pure (a : α) {after : α → List NodeId} (h : after a = before) :
    Plants before (Pure.pure a) after := by
  intro start arena ht
  rw [outcome_pure]
  show Arena.Trees start arena (after a)
  rwa [h]

theorem Plants.throw (e : Failure) (after : α → List NodeId) :
    Plants before (throw e : Building α) after :=
  fun _ _ ht => ⟨before, ht⟩

theorem Plants.bind {m : Building α} {f : α → Building β} {middle : α → List NodeId}
    {after : β → List NodeId} (hm : Plants before m middle)
    (hf : ∀ a, Plants (middle a) (f a) after) : Plants before (m >>= f) after := by
  intro start arena ht
  have h := hm start arena ht
  rw [outcome_bind]
  rcases hr : outcome m arena with ⟨_ | a, grown⟩
  · rw [hr] at h; exact h
  · rw [hr] at h; exact hf a start grown h

/-- The same with the roots in the middle told. -/
theorem Plants.through {m : Building α} {f : α → Building β} (middle : α → List NodeId)
    {after : β → List NodeId} (hm : Plants before m middle)
    (hf : ∀ a, Plants (middle a) (f a) after) : Plants before (m >>= f) after :=
  hm.bind hf

theorem Plants.map {m : Building α} (f : α → β) {after : β → List NodeId}
    (hm : Plants before m fun a => after (f a)) : Plants before (f <$> m) after := by
  rw [map_eq_pure_bind]
  exact hm.bind fun a => Plants.pure (f a) rfl

theorem plants_add {node : SchemaNode} {children : List NodeId} (h : node.children = children) :
    Plants (before ++ children) (add node) fun id => before ++ [id] :=
  fun _ _ ht => .push node (h ▸ ht)

theorem plants_ofExcept (x : Except Failure α) : Plants before (ofExcept x) fun _ => before := by
  cases x with
  | ok a => exact Plants.pure a rfl
  | error e => exact Plants.throw e _

/-- A list of steps, each of which adds its own roots. -/
theorem plants_mapM {f : α → Building β} (roots : β → List NodeId)
    (hf : ∀ a before, Plants before (f a) fun b => before ++ roots b) (xs : List α) :
    ∀ before, Plants before (xs.mapM f) fun bs => before ++ bs.flatMap roots := by
  induction xs with
  | nil =>
    intro before
    rw [List.mapM_nil]
    exact Plants.pure [] (List.append_nil _)
  | cons x xs ih =>
    intro before
    rw [List.mapM_cons]
    refine (hf x before).bind fun b => (ih _).bind fun bs => Plants.pure _ ?_
    rw [List.flatMap_cons, List.append_assoc]

end Building

/-! ### Schemas -/

namespace Schema

open Building

/-- Enumerations and primitive types have no schemas inside them. -/
theorem children_of_plainKind? {fields : Assoc String Json} {declared : Option String}
    {kind : SchemaKind} (h : plainKind? fields declared = some kind) : kind.children = [] := by
  obtain ⟨p, -, rfl⟩ := Option.map_eq_some_iff.1 h
  split <;> rfl

mutual

theorem plants_classify (v : Json) (location : String) (before : List NodeId) :
    Plants before (classify v location) fun id => before ++ [id] := by
  match v with
  | .obj fields =>
    rw [classify]
    refine (plants_ofExcept _).bind fun declared => ?_
    refine (plants_classifyHints fields location before).bind fun hints => ?_
    refine (plants_classifyKind fields _ location _).bind fun kind => ?_
    rw [List.append_assoc]
    exact plants_add rfl
  | .null | .bool _ | .num _ | .str _ | .arr _ =>
    rw [classify]
    · have h := @plants_add before {} [] rfl
      rwa [List.append_nil] at h
    · simp
termination_by (v.size, 0)
decreasing_by all_goals simp only [Json.size]; omega

theorem plants_classifyHints (fields : Assoc String Json) (location : String)
    (before : List NodeId) :
    Plants before (classifyHints fields location) fun hints =>
      before ++ (hints.genericTypeDefinition.toList ++ hints.genericArguments) := by
  rw [classifyHints]
  refine Plants.through (fun definition : Option NodeId => before ++ definition.toList) ?_
    fun definition => ?_
  · split
    · next v hv =>
      have hlt := size_lt_of_hint? hv
      exact (plants_classify v _ before).map some
    · exact Plants.pure none (List.append_nil _)
  refine Plants.through (fun arguments => before ++ definition.toList ++ arguments) ?_
    fun arguments => ?_
  · split
    · next vs hvs =>
      have hlt := sizes_lt_of_hint? hvs
      exact plants_classifyAll vs _ 0 _
    · exact Plants.pure [] (List.append_nil _)
  exact (plants_ofExcept _).bind fun enumValues => Plants.pure _ (List.append_assoc ..).symm
termination_by (Json.fieldSizes fields, 1)
decreasing_by all_goals omega

theorem plants_classifyKind (fields : Assoc String Json) (declared : Option String)
    (location : String) (before : List NodeId) :
    Plants before (classifyKind fields declared location) fun kind => before ++ kind.children := by
  rw [classifyKind]
  split
  · exact Plants.pure _ (List.append_nil _)
  · split
    · exact (plants_classifyObject fields location before).map SchemaKind.object
    · split
      · split
        · next v hv =>
          have hlt := Json.size_lt_of_get? hv
          exact (plants_classify v _ before).bind fun id => Plants.pure _ rfl
        · exact Plants.pure _ (List.append_nil _)
      · split
        · next kind hkind =>
          refine Plants.pure kind ?_
          rw [children_of_plainKind? hkind, List.append_nil]
        · split
          · next how members hm =>
            have hlt := sizes_lt_of_combination? hm
            exact (plants_classifyAll members _ 0 before).bind fun ids => Plants.pure _ rfl
          · exact Plants.pure _ (List.append_nil _)
termination_by (Json.fieldSizes fields, 2)
decreasing_by all_goals omega

theorem plants_classifyObject (fields : Assoc String Json) (location : String)
    (before : List NodeId) :
    Plants before (classifyObject fields location) fun shape =>
      before ++ (SchemaKind.object shape).children := by
  rw [classifyObject]
  refine Plants.through
    (fun properties : Assoc String NodeId => before ++ properties.map Prod.snd) ?_
    fun properties => ?_
  · split
    · next members hm =>
      have hlt := fieldSizes_lt_of_get? hm
      exact plants_classifyMembers members location before
    · exact Plants.pure [] (List.append_nil _)
  refine Plants.through (fun allOf => before ++ properties.map Prod.snd ++ allOf) ?_
    fun allOf => ?_
  · split
    · next members hm =>
      have hlt := sizes_lt_of_items? hm
      exact plants_classifyAll members _ 0 _
    · exact Plants.pure [] (List.append_nil _)
  refine Plants.through (fun additional : Option Additional =>
    before ++ properties.map Prod.snd ++ allOf ++ (match additional with
      | some (.schema node) => [node]
      | _ => [])) ?_ fun additional => ?_
  · split
    · exact Plants.pure none (List.append_nil _)
    · exact Plants.pure none (List.append_nil _)
    · exact Plants.pure none (List.append_nil _)
    · exact Plants.pure (some Additional.any) (List.append_nil _)
    · next v _ _ _ hv =>
      have hlt := Json.size_lt_of_get? hv
      exact (plants_classify v _ _).bind fun id => Plants.pure _ rfl
  · refine Plants.pure _ ((List.append_assoc ..).symm.trans ?_)
    exact congrArg (· ++ _) (List.append_assoc ..).symm
termination_by (Json.fieldSizes fields, 1)
decreasing_by all_goals omega

theorem plants_classifyMembers (members : List (String × Json)) (location : String)
    (before : List NodeId) :
    Plants before (classifyMembers members location) fun ids => before ++ ids.map Prod.snd := by
  match members with
  | [] =>
    rw [classifyMembers]
    exact Plants.pure [] (List.append_nil _)
  | (name, v) :: rest =>
    rw [classifyMembers]
    refine (plants_classify v _ before).bind fun id => ?_
    refine (plants_classifyMembers rest location _).bind fun ids => Plants.pure _ ?_
    rw [List.map_cons, List.append_assoc]
    rfl
termination_by (Json.fieldSizes members, 0)
decreasing_by all_goals simp only [Json.fieldSizes]; omega

theorem plants_classifyAll (vs : List Json) (location : String) (index : Nat)
    (before : List NodeId) :
    Plants before (classifyAll vs location index) fun ids => before ++ ids := by
  match vs with
  | [] =>
    rw [classifyAll]
    exact Plants.pure [] (List.append_nil _)
  | v :: rest =>
    rw [classifyAll]
    refine (plants_classify v _ before).bind fun id => ?_
    refine (plants_classifyAll rest location (index + 1) _).bind fun ids => Plants.pure _ ?_
    rw [List.append_assoc]
    rfl
termination_by (Json.sizes vs, 0)
decreasing_by all_goals simp only [Json.sizes]; omega

end

end Schema

/-! ### Documents -/

/-- The nodes of a body, one for each media type. -/
def Body.roots (b : Body) : List NodeId := b.content.map Prod.snd

/-- The nodes of an operation, in the order in which they are made. -/
def Operation.roots (o : Operation) : List NodeId :=
  o.parameters.map Parameter.schema ++ o.request.toList.flatMap Body.roots ++
    o.response.toList.flatMap Body.roots

/-- The nodes that stand in no other node: those of named schemas and of operations. -/
def Document.roots (d : Document) : List NodeId :=
  d.schemas.map Prod.snd ++ d.operations.flatMap Operation.roots

namespace Document

open Building

theorem plants_readSchemas (members : List (String × Json)) (before : List NodeId) :
    Plants before (readSchemas members) fun schemas => before ++ schemas.map Prod.snd := by
  induction members generalizing before with
  | nil => exact Plants.pure [] (List.append_nil _)
  | cons member rest ih =>
    obtain ⟨name, v⟩ := member
    rw [readSchemas]
    refine (Schema.plants_classify v name before).bind fun id => ?_
    refine (ih _).bind fun schemas => Plants.pure _ ?_
    rw [List.map_cons, List.append_assoc]
    rfl

theorem plants_readParameter (spot : Spot) (v : Json) (before : List NodeId) :
    Plants before (readParameter spot v) fun p => before ++ [p.schema] := by
  unfold readParameter
  split
  · exact Plants.throw _ _
  · dsimp only
    split
    · exact Plants.throw _ _
    · exact Plants.throw _ _
    · exact (Schema.plants_classify _ _ before).bind fun id => Plants.pure _ rfl

theorem plants_readContent (location : String) (entries : List (String × Json))
    (before : List NodeId) :
    Plants before (readContent location entries) fun content => before ++ content.map Prod.snd := by
  induction entries generalizing before with
  | nil => exact Plants.pure [] (List.append_nil _)
  | cons entry rest ih =>
    obtain ⟨mediaType, v⟩ := entry
    rw [readContent]
    refine (Schema.plants_classify _ _ before).bind fun id => ?_
    refine (ih _).bind fun content => Plants.pure _ ?_
    rw [List.map_cons, List.append_assoc]
    rfl

theorem plants_readBody? (root : Json) (location : String) (v : Option Json)
    (before : List NodeId) :
    Plants before (readBody? root location v) fun b => before ++ b.toList.flatMap Body.roots := by
  cases v with
  | none => exact Plants.pure none (List.append_nil _)
  | some v =>
    refine (plants_ofExcept _).bind fun v => Plants.map some ?_
    refine (plants_readContent location _ before).bind fun content => Plants.pure _ ?_
    simp [Body.roots]

theorem plants_readLimit? (spot : Spot) (v : Option Json) (before : List NodeId) :
    Plants before (readLimit? spot v) fun _ => before := by
  cases v with
  | none => exact Plants.pure none rfl
  | some v =>
    rw [readLimit?]
    split
    · exact Plants.pure _ rfl
    · exact Plants.throw _ _

theorem plants_readOperation (root : Json) (spot : Spot) (shared : List Json) (op : Json)
    (before : List NodeId) :
    Plants before (readOperation root spot shared op) fun o => before ++ o.roots := by
  unfold readOperation
  refine (plants_ofExcept _).bind fun merged => ?_
  refine (plants_mapM (fun p : Parameter => [p.schema])
    (fun p => plants_readParameter spot p.2) merged before).bind fun parameters => ?_
  refine (plants_readBody? root _ _ _).bind fun request => ?_
  refine (plants_readBody? root _ _ _).bind fun response => ?_
  refine (plants_readLimit? spot _ _).bind fun limit => Plants.pure _ ?_
  simp only [Operation.roots, List.append_assoc, List.map_eq_flatMap]

theorem plants_readMember (root : Json) (path : String) (shared : List Json)
    (member : String × Json) (before : List NodeId) :
    Plants before (readMember root path shared member) fun o =>
      before ++ o.toList.flatMap Operation.roots := by
  unfold readMember
  split
  · exact Plants.pure none (List.append_nil _)
  · split
    · split
      · refine Plants.map some ?_
        simp only [Option.toList_some, List.flatMap_singleton]
        exact plants_readOperation root _ shared _ before
      · exact Plants.pure none (List.append_nil _)
    · exact Plants.throw _ _

theorem flatMap_filterMap_id {α β : Type} (xs : List (Option α)) (f : α → List β) :
    (xs.filterMap id).flatMap f = xs.flatMap fun x => x.toList.flatMap f := by
  induction xs with
  | nil => rfl
  | cons x xs ih =>
    cases x with
    | none =>
      rw [List.filterMap_cons_none rfl, List.flatMap_cons, ih]
      rfl
    | some a =>
      have hhead : (some a :: xs).filterMap id = a :: xs.filterMap id := rfl
      rw [hhead, List.flatMap_cons, List.flatMap_cons, ih, Option.toList_some,
        List.flatMap_singleton]

theorem plants_readPathItem (root : Json) (path : String) (item : Json) (before : List NodeId) :
    Plants before (readPathItem root path item) fun ops =>
      before ++ ops.flatMap Operation.roots := by
  unfold readPathItem
  refine (plants_mapM (fun o : Option Operation => o.toList.flatMap Operation.roots)
    (plants_readMember root path _) _ before).bind fun ops => Plants.pure _ ?_
  rw [flatMap_filterMap_id]

theorem plants_readPaths (root : Json) (before : List NodeId) :
    Plants before (readPaths root) fun ops => before ++ ops.flatMap Operation.roots := by
  unfold readPaths
  refine (plants_mapM (fun ops : List Operation => ops.flatMap Operation.roots)
    (fun entry before => ?_) _ before).bind fun ops => Plants.pure _ ?_
  · exact (plants_ofExcept _).bind fun item => plants_readPathItem root entry.1 item before
  · rw [← List.flatMap_id, List.flatMap_assoc]
    rfl

end Document

end TypedClient
