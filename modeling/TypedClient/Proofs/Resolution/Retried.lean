import TypedClient.Proofs.Resolution.Faithful
import TypedClient.Proofs.Resolution.InStep

/-! Calls that failed, made again. What a call resolved before it failed is kept, and it is not
resolved again; the nodes and the names that were being resolved when it failed have got no type
meanwhile. So the call goes the same way once more, changes nothing on it and fails at the same
place. -/

namespace TypedClient

namespace Resolver

variable {α β γ δ : Type} {d : Document} {waits : NodeId → Prop} {path : List String}
  {r r' : Resolver} {id : NodeId} {name : String} {t : TypeId} {e : Failure}

/-! ### What a call leaves behind -/

/-- What has a type keeps it. -/
structure Recalls (r r' : Resolver) : Prop where
  intrinsics : ∀ {name t}, Assoc.get? r.graph.intrinsics name = some t →
    Assoc.get? r'.graph.intrinsics name = some t
  memo : ∀ {id t}, Assoc.get? r.memo id = some t → Assoc.get? r'.memo id = some t

theorem Recalls.refl (r : Resolver) : Recalls r r := ⟨fun h => h, fun h => h⟩

theorem Recalls.trans {r'' : Resolver} (h : Recalls r r') (h' : Recalls r' r'') : Recalls r r'' :=
  ⟨fun hi => h'.intrinsics (h.intrinsics hi), fun hm => h'.memo (h.memo hm)⟩

/-- What a call leaves behind, whether it fails or not: the nodes that wait for it and the names on
its path are left alone. -/
structure Leaves (waits : NodeId → Prop) (path : List String) (r r' : Resolver) : Prop
    extends Recalls r r' where
  waiting : ∀ {id}, waits id → Assoc.get? r'.memo id = Assoc.get? r.memo id
  registry : ∀ {name}, name ∈ path → Assoc.get? r'.registry name = Assoc.get? r.registry name

theorem Leaves.refl (r : Resolver) : Leaves waits path r r where
  toRecalls := Recalls.refl r
  waiting _ := rfl
  registry _ := rfl

theorem Leaves.trans {r'' : Resolver} (h : Leaves waits path r r') (h' : Leaves waits path r' r'') :
    Leaves waits path r r'' where
  toRecalls := h.toRecalls.trans h'.toRecalls
  waiting hw := (h'.waiting hw).trans (h.waiting hw)
  registry hn := (h'.registry hn).trans (h.registry hn)

theorem Leaves.mono {waits' : NodeId → Prop} {path' : List String} (h : Leaves waits path r r')
    (hwaits : ∀ x, waits' x → waits x) (hpath : path' ⊆ path) : Leaves waits' path' r r' where
  toRecalls := h.toRecalls
  waiting hw := h.waiting (hwaits _ hw)
  registry hn := h.registry (hpath hn)

/-- A node gets its type when nothing waits for it. -/
theorem Leaves.remember (h : Leaves waits path r r') (hnew : Assoc.get? r.memo id = none)
    (hid : ¬ waits id) : Leaves waits path r { r' with memo := Assoc.put r'.memo id t } where
  intrinsics := h.intrinsics
  memo := by
    intro x u hx
    have hne : id ≠ x := by
      rintro rfl
      rw [hnew] at hx
      cases hx
    exact (Assoc.get?_put_of_ne hne ..).trans (h.memo hx)
  waiting := by
    intro x hx
    have hne : id ≠ x := by
      rintro rfl
      exact hid hx
    exact (Assoc.get?_put_of_ne hne ..).trans (h.waiting hx)
  registry := h.registry

/-! ### Calls in two runs -/

/-- Where `x` has failed, `y` fails in the same way, at once. -/
structure Retries (waits : NodeId → Prop) (path : List String) (x : Resolving α) (y : Resolving β) :
    Prop where
  leaves : ∀ r, Leaves waits path r (outcome x r).2
  fails : ∀ {r e r'}, outcome x r = (.error e, r') → outcome y r' = (.error e, r')

/-- Where `x` has given a value, `y` gives one as well, and changes nothing. -/
structure Repeats (waits : NodeId → Prop) (path : List String) (R : α → β → Prop)
    (x : Resolving α) (y : Resolving β) : Prop extends Retries waits path x y where
  gives : ∀ {r a r' r''}, outcome x r = (.ok a, r') → Recalls r' r'' →
    ∃ b, R a b ∧ outcome y r'' = (.ok b, r'')

theorem Retries.mono {waits' : NodeId → Prop} {path' : List String} {x : Resolving α}
    {y : Resolving β} (h : Retries waits path x y) (hwaits : ∀ x, waits' x → waits x)
    (hpath : path' ⊆ path) : Retries waits' path' x y where
  leaves r := (h.leaves r).mono hwaits hpath
  fails := h.fails

theorem Repeats.mono {R : α → β → Prop} {waits' : NodeId → Prop} {path' : List String}
    {x : Resolving α} {y : Resolving β} (h : Repeats waits path R x y)
    (hwaits : ∀ x, waits' x → waits x) (hpath : path' ⊆ path) : Repeats waits' path' R x y where
  toRetries := h.toRetries.mono hwaits hpath
  gives := h.gives

section Sequences

variable {R : α → β → Prop} {S : γ → δ → Prop} {x : Resolving α} {y : Resolving β}
  {f : α → Resolving γ} {g : β → Resolving δ}

theorem Repeats.bind_retries (hx : Repeats waits path R x y)
    (hf : ∀ a b, R a b → Retries waits path (f a) (g b)) :
    Retries waits path (x >>= f) (y >>= g) := by
  have hafter : ∀ {r a r' r''}, outcome x r = (.ok a, r') → Recalls r' r'' →
      ∃ b, Retries waits path (f a) (g b) ∧ outcome y r'' = (.ok b, r'') := by
    intro r a r' r'' hgave hrecalls
    obtain ⟨b, hab, hy⟩ := hx.gives hgave hrecalls
    exact ⟨b, hf a b hab, hy⟩
  constructor
  · intro r
    have hleaves := hx.leaves r
    rw [outcome_bind]
    rcases hrun : outcome x r with ⟨e | a, r₁⟩
    · rw [hrun] at hleaves
      exact hleaves
    · rw [hrun] at hleaves
      obtain ⟨b, hab, -⟩ := hafter hrun (Recalls.refl r₁)
      exact hleaves.trans (hab.leaves r₁)
  · intro r e r' ho
    rw [outcome_bind] at ho ⊢
    rcases hrun : outcome x r with ⟨e' | a, r₁⟩
    · rw [hrun] at ho
      cases ho
      rw [hx.fails hrun]
    · rw [hrun] at ho
      obtain ⟨b, hab, -⟩ := hafter hrun (Recalls.refl r₁)
      have hleaves := hab.leaves r₁
      have hend : outcome (f a) r₁ = (.error e, r') := ho
      rw [hend] at hleaves
      obtain ⟨b', hab', hy⟩ := hafter hrun hleaves.toRecalls
      rw [hy]
      exact hab'.fails ho

theorem Repeats.bind (hx : Repeats waits path R x y)
    (hf : ∀ a b, R a b → Repeats waits path S (f a) (g b)) :
    Repeats waits path S (x >>= f) (y >>= g) where
  toRetries := hx.bind_retries fun a b hab => (hf a b hab).toRetries
  gives := by
    intro r c r' r'' ho hrecalls
    obtain ⟨a, r₁, hrun, ho⟩ := outcome_bind_eq_ok.1 ho
    obtain ⟨b, hab, -⟩ := hx.gives hrun (Recalls.refl r₁)
    have hleaves := (hf a b hab).leaves r₁
    rw [ho] at hleaves
    obtain ⟨b', hab', hy⟩ := hx.gives hrun (hleaves.toRecalls.trans hrecalls)
    obtain ⟨c', hcc, hg⟩ := (hf a b' hab').gives ho hrecalls
    exact ⟨c', hcc, outcome_bind_eq_ok.2 ⟨b', r'', hy, hg⟩⟩

end Sequences

theorem repeats_intrinsic (name : String) :
    Repeats waits path Eq (intrinsic name) (intrinsic name) := by
  have hrun : ∀ r : Resolver, outcome (intrinsic name) r =
      (.ok (r.graph.intrinsic name).1, { r with graph := (r.graph.intrinsic name).2 }) :=
    fun _ => rfl
  refine ⟨⟨fun r => ?_, ?_⟩, ?_⟩
  · rw [hrun]
    exact ⟨⟨r.graph.intrinsics_intrinsic name, fun h => h⟩, fun _ => rfl, fun _ => rfl⟩
  · intro r e r' ho
    rw [hrun] at ho
    cases ho
  · intro r t r' r'' ho hrecalls
    rw [hrun] at ho
    cases ho
    have hknown := hrecalls.intrinsics (r.graph.get?_intrinsic name)
    refine ⟨_, rfl, ?_⟩
    rw [hrun, TypeGraph.intrinsic, hknown]

theorem repeats_typeInfo {R : TypeInfo → TypeInfo → Prop} (hR : ∀ t u, R t u) (id : TypeId) :
    Repeats waits path R (typeInfo id) (typeInfo id) where
  leaves := Leaves.refl
  fails ho := by cases ho
  gives _ _ := ⟨_, hR _ _, rfl⟩

/-- A type is added whatever else has been resolved. -/
theorem retries_addType (t u : TypeInfo) (a b : Bool) (id : NodeId) :
    Retries waits path (addType t a id) (addType u b id) := by
  have hrun : ∀ r : Resolver, ∃ nameable, outcome (addType t a id) r =
      (.ok r.graph.size, { r with graph := (r.graph.insert t).2, nameable }) := by
    intro r
    cases a with
    | true => exact ⟨_, rfl⟩
    | false => exact ⟨_, rfl⟩
  refine ⟨fun r => ?_, ?_⟩
  · obtain ⟨nameable, h⟩ := hrun r
    rw [h]
    exact ⟨⟨fun h => h, fun h => h⟩, fun _ => rfl, fun _ => rfl⟩
  · intro r e r' ho
    obtain ⟨nameable, h⟩ := hrun r
    rw [h] at ho
    cases ho

/-- Resolving twice: what is told of a type may have changed when it was named. -/
def retrying (waits : NodeId → Prop) (path : List String) : InStep Resolving Resolving where
  Exact := False
  Asks := Repeats waits path
  Ends := Retries waits path
  asks_pure h := by
    refine ⟨⟨Leaves.refl, ?_⟩, ?_⟩
    · intro r e r' ho
      cases ho
    · intro r a r' r'' ho _
      cases ho
      exact ⟨_, h, rfl⟩
  asks_throw R e := by
    refine ⟨⟨Leaves.refl, ?_⟩, ?_⟩
    · intro r e' r' ho
      cases ho
      rfl
    · intro r a r' r'' ho _
      cases ho
  asks_bind := Repeats.bind
  asks_intrinsic := repeats_intrinsic
  asks_typeInfo := repeats_typeInfo fun _ _ => False.elim
  ends_asks h := h.toRetries
  ends_bind := Repeats.bind_retries
  ends_add id _ := retries_addType _ _ _ _ id

/-! ### Nodes and names -/

theorem outcome_resolveNode_of_memo (hd : d.Forest) (hm : Assoc.get? r.memo id = some t) :
    outcome (resolveNode d path id) r = (.ok t, r) := by
  rw [resolveNode_eq hd, outcome_bind, outcome_get]
  dsimp only
  rw [hm]
  rfl

theorem outcome_resolveNode_of_error (hd : d.Forest) (hm : Assoc.get? r.memo id = none)
    (hfail : outcome (resolveKind (site d path) id) r = (.error e, r')) :
    outcome (resolveNode d path id) r = (.error e, r') := by
  rw [resolveNode_eq hd, outcome_bind, outcome_get]
  dsimp only
  rw [hm]
  dsimp only
  rw [outcome_bind, hfail]

theorem memo_of_resolveNode (hd : d.Forest) (ho : outcome (resolveNode d path id) r = (.ok t, r')) :
    Assoc.get? r'.memo id = some t := by
  rcases outcome_resolveNode hd path id r with
    ⟨u, hm, h⟩ | ⟨-, ⟨e, r₁, -, h⟩ | ⟨u, r₁, -, h⟩⟩
  · rw [h] at ho
    cases ho
    exact hm
  · rw [h] at ho
    cases ho
  · rw [h] at ho
    cases ho
    exact Assoc.get?_put_self ..

/-- A node that failed has got no type, and it fails again when what makes it does. -/
theorem retries_of_kind (hd : d.Forest) (hpath : OnPath d path id)
    (hkind : Retries (Waits d path id) path (resolveKind (site d path) id)
      (resolveKind (site d path) id)) :
    Repeats (Held d path id) path Eq (resolveNode d path id) (resolveNode d path id) := by
  refine ⟨⟨fun r => ?_, ?_⟩, ?_⟩
  · have hleaves := (hkind.leaves r).mono (fun _ => Held.waits) (List.Subset.refl path)
    rcases outcome_resolveNode hd path id r with
      ⟨t, -, ho⟩ | ⟨hm, ⟨e, r', hfail, ho⟩ | ⟨t, r', hmade, ho⟩⟩
    · rw [ho]
      exact Leaves.refl r
    · rw [hfail] at hleaves
      rw [ho]
      exact hleaves
    · rw [hmade] at hleaves
      rw [ho]
      exact hleaves.remember hm fun h => h.2 .refl
  · intro r e r' ho
    rcases outcome_resolveNode hd path id r with
      ⟨t, -, h⟩ | ⟨hm, ⟨e', r₁, hfail, h⟩ | ⟨t, r₁, -, h⟩⟩
    · rw [h] at ho
      cases ho
    · rw [h] at ho
      cases ho
      have hleaves := hkind.leaves r
      rw [hfail] at hleaves
      have hnew : Assoc.get? r'.memo id = none := (hleaves.waiting (waits_self hd hpath)).trans hm
      exact outcome_resolveNode_of_error hd hnew (hkind.fails hfail)
    · rw [h] at ho
      cases ho
  · intro r t r' r'' ho hrecalls
    refine ⟨t, rfl, ?_⟩
    exact outcome_resolveNode_of_memo hd (hrecalls.memo (memo_of_resolveNode hd ho))

/-- Naming and registering a type fails before anything is changed, or it succeeds. -/
theorem outcome_settle (name : String) (node : NodeId) (t : TypeId) (r : Resolver) :
    (∃ e, outcome (settle name node t) r = (.error e, r)) ∨
      ∃ graph : TypeGraph, graph.intrinsics = r.graph.intrinsics ∧
        outcome (settle name node t) r =
          (.ok t, { r with graph, registry := Assoc.put r.registry name t }) := by
  have happly : (∃ e, outcome (applyName name node t) r = (.error e, r)) ∨
      ∃ graph : TypeGraph, graph.intrinsics = r.graph.intrinsics ∧
        outcome (applyName name node t) r = (.ok (), { r with graph }) := by
    unfold applyName
    rw [outcome_bind, outcome_get]
    dsimp only
    split
    · split
      · next e _ => exact .inl ⟨e, rfl⟩
      · exact .inr ⟨r.graph.set t _, rfl, rfl⟩
    · exact .inr ⟨r.graph, rfl, rfl⟩
  unfold settle
  rw [outcome_bind]
  rcases happly with ⟨e, h⟩ | ⟨graph, hi, h⟩
  · rw [h]
    exact .inl ⟨e, rfl⟩
  · rw [h]
    exact .inr ⟨graph, hi, rfl⟩

theorem retries_settle (hname : name ∉ path) (node : NodeId) (t : TypeId) :
    Retries waits path (settle name node t) (settle name node t) := by
  constructor
  · intro r
    rcases outcome_settle name node t r with ⟨e, ho⟩ | ⟨graph, hi, ho⟩
    · rw [ho]
      exact Leaves.refl r
    · rw [ho]
      refine ⟨⟨fun h => ?_, fun h => h⟩, fun _ => rfl, fun {other} hother => ?_⟩
      · rw [← hi] at h
        exact h
      · have hne : name ≠ other := by
          rintro rfl
          exact hname hother
        exact Assoc.get?_put_of_ne hne ..
  · intro r e r' ho
    rcases outcome_settle name node t r with ⟨e', h⟩ | ⟨graph, hi, h⟩
    · rw [h] at ho
      cases ho
      exact h
    · rw [h] at ho
      cases ho

section Root

variable {root : NodeId} (hname : name ∉ path) (hn : Assoc.get? d.schemas name = some root)
  (hnode : Repeats (Held d (path ++ [name]) root) (path ++ [name]) Eq
    (resolveNode d (path ++ [name]) root) (resolveNode d (path ++ [name]) root))

include hname hn hnode in
theorem retries_of_root :
    Retries (OnPath d path) path (resolveNode d (path ++ [name]) root >>= settle name root)
      (resolveNode d (path ++ [name]) root >>= settle name root) := by
  have hheld : ∀ x, OnPath d path x → Held d (path ++ [name]) root x := by
    intro x hx
    constructor
    · intro other top ho hreach
      exact List.mem_append_left _ (hx other top ho hreach)
    · intro hreach
      exact hname (hx name root hn hreach)
  apply (hnode.mono hheld (List.subset_append_left path [name])).bind_retries
  rintro t _ rfl
  exact retries_settle hname root t

include hnode in
/-- A schema is registered after all that can fail. -/
theorem unregistered_of_root
    (ho : outcome (resolveNode d (path ++ [name]) root >>= settle name root) r = (.error e, r')) :
    Assoc.get? r'.registry name = Assoc.get? r.registry name := by
  have hkept := (hnode.leaves r).registry (List.mem_append_right path List.mem_cons_self)
  rw [outcome_bind] at ho
  rcases hrun : outcome (resolveNode d (path ++ [name]) root) r with ⟨e' | t, r₁⟩
  · rw [hrun] at ho hkept
    cases ho
    exact hkept
  · rw [hrun] at ho hkept
    have hend : outcome (settle name root t) r₁ = (.error e, r') := ho
    rcases outcome_settle name root t r₁ with ⟨e', h⟩ | ⟨graph, -, h⟩
    · rw [h] at hend
      cases hend
      exact hkept
    · rw [h] at hend
      cases hend

include hname hn hnode in
/-- A named schema that failed has not been registered, and fails again when its node does. -/
theorem fails_of_root (hreg : Assoc.get? r.registry name = none)
    (ho : outcome (resolveNode d (path ++ [name]) root >>= settle name root) r = (.error e, r')) :
    Assoc.get? r'.registry name = none ∧
      outcome (resolveReference d path name) r' = (.error e, r') := by
  have hnew := (unregistered_of_root hnode ho).trans hreg
  refine ⟨hnew, ?_⟩
  rcases outcome_resolveReference d path name r' with
    ⟨u, hu, -⟩ | ⟨-, ⟨hmem, -⟩ | ⟨-, hnone, -⟩ | ⟨root', -, hn', h⟩⟩
  · rw [hnew] at hu
    cases hu
  · exact absurd hmem hname
  · rw [hn] at hnone
    cases hnone
  · rw [hn] at hn'
    cases hn'
    rw [h]
    exact (retries_of_root hname hn hnode).fails ho

end Root

mutual

theorem repeats_node (hd : d.Forest) {path : List String} {id : NodeId} (hpath : OnPath d path id) :
    Repeats (Held d path id) path Eq (resolveNode d path id) (resolveNode d path id) := by
  have hchildren : (retrying (Waits d path id) path).Children (site d path) (resolveNode d path)
      (d.next id) := by
    intro c hc
    apply (repeats_node hd (hpath.next hd hc)).mono _ (List.Subset.refl path)
    exact fun x hx => ⟨hx.1, hx.2 c hc⟩
  apply retries_of_kind hd hpath
  apply InStep.ends_kind hchildren
  intro name _
  exact (retries_reference hd path name).mono (fun x hx => hx.1) (List.Subset.refl path)
termination_by depthBelow d path + id + 1
decreasing_by
  · have := hd.next_lt hc
    simp only [NodeId] at *
    omega
  · omega

theorem retries_reference (hd : d.Forest) (path : List String) (name : String) :
    Retries (OnPath d path) path (resolveReference d path name) (resolveReference d path name) := by
  constructor
  · intro r
    rcases outcome_resolveReference d path name r with
      ⟨t, -, ho⟩ | ⟨-, ⟨-, ho⟩ | ⟨-, -, ho⟩ | ⟨root, hname, hn, ho⟩⟩
    · rw [ho]
      exact Leaves.refl r
    · rw [ho]
      exact ⟨⟨fun h => h, fun h => h⟩, fun _ => rfl, fun _ => rfl⟩
    · rw [ho]
      exact Leaves.refl r
    · have hdepth : depthBelow d (path ++ [name]) + root + 1 < depthBelow d path :=
        depthBelow_lt (by simpa using hname) hn
      have hroot : OnPath d (path ++ [name]) root := OnPath.last hd hn
      rw [ho]
      exact (retries_of_root hname hn (repeats_node hd hroot)).leaves r
  · intro r e r' ho
    rcases outcome_resolveReference d path name r with
      ⟨t, -, h⟩ | ⟨hreg, ⟨-, h⟩ | ⟨-, -, h⟩ | ⟨root, hname, hn, h⟩⟩
    · rw [h] at ho
      cases ho
    · rw [h] at ho
      cases ho
    · rw [h] at ho
      cases ho
      exact h
    · have hdepth : depthBelow d (path ++ [name]) + root + 1 < depthBelow d path :=
        depthBelow_lt (by simpa using hname) hn
      have hroot : OnPath d (path ++ [name]) root := OnPath.last hd hn
      rw [h] at ho
      exact (fails_of_root hname hn (repeats_node hd hroot) hreg ho).2
termination_by depthBelow d path
decreasing_by all_goals omega

end

/-- A call by name that failed has not registered the name. -/
theorem unregistered_of_error (hd : d.Forest)
    (ho : outcome (resolveReference d path name) r = (.error e, r')) :
    Assoc.get? r'.registry name = none := by
  rcases outcome_resolveReference d path name r with
    ⟨t, -, h⟩ | ⟨hreg, ⟨-, h⟩ | ⟨-, -, h⟩ | ⟨root, hname, hn, h⟩⟩
  · rw [h] at ho
    cases ho
  · rw [h] at ho
    cases ho
  · rw [h] at ho
    cases ho
    exact hreg
  · have hroot : OnPath d (path ++ [name]) root := OnPath.last hd hn
    rw [h] at ho
    exact (fails_of_root hname hn (repeats_node hd hroot) hreg ho).1

end Resolver

end TypedClient
