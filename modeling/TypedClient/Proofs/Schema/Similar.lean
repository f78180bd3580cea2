import TypedClient.Proofs.Outcome
import TypedClient.Proofs.Schema.Matches
import TypedClient.Schema.Classify

/-! Two runs that build arenas. Nodes of the two are similar when they say the same and refer to
similar nodes, and so on to the end. Runs agree when both fail or both give values that stay related
in whatever the arenas grow into; so it does not matter what an arena held before, and the parts of
a run may be done in another order. -/

namespace TypedClient

/-! ### Two arenas -/

/-- Every node stays where it is. -/
def Arena.Kept (a b : Arena) : Prop := ∀ x node, a.get? x = some node → b.get? x = some node

theorem Arena.kept_push (a : Arena) (node : SchemaNode) : a.Kept (a.push node) := by
  intro x n hx
  have hlt : x < a.size := (Array.getElem?_eq_some_iff.1 hx).1
  rw [get?_push, if_neg (Nat.ne_of_lt hlt)]
  exact hx

/-- The arenas of two runs. -/
abbrev Arenas := Arena × Arena

namespace Arenas

variable {w u : Arenas} {S : NodeId → NodeId → Prop} {x x' : NodeId} {n n' : SchemaNode}

/-- Both arenas keep their nodes. -/
def Later (w u : Arenas) : Prop := w.1.Kept u.1 ∧ w.2.Kept u.2

theorem Later.refl (w : Arenas) : w.Later w := ⟨fun _ _ h => h, fun _ _ h => h⟩

theorem Later.trans {t : Arenas} (h : w.Later u) (h' : u.Later t) : w.Later t :=
  ⟨fun x n hx => h'.1 x n (h.1 x n hx), fun x n hx => h'.2 x n (h.2 x n hx)⟩

/-- Related nodes are there and say the same, up to the relation itself. -/
def Closed (w : Arenas) (S : NodeId → NodeId → Prop) : Prop :=
  ∀ x x', S x x' → ∃ n n', w.1.get? x = some n ∧ w.2.get? x' = some n' ∧ n.Matches S n'

def Similar (w : Arenas) (x x' : NodeId) : Prop := ∃ S, w.Closed S ∧ S x x'

theorem closed_similar (w : Arenas) : w.Closed w.Similar := by
  rintro x x' ⟨S, hS, hx⟩
  obtain ⟨n, n', hn, hn', hm⟩ := hS x x' hx
  exact ⟨n, n', hn, hn', hm.imp fun y _ y' _ hy => ⟨S, hS, hy⟩⟩

/-- Nodes that say the same up to similar nodes are similar: the relation extends to them. -/
theorem Similar.of_matches (hx : w.1.get? x = some n) (hx' : w.2.get? x' = some n')
    (h : n.Matches w.Similar n') : w.Similar x x' := by
  refine ⟨fun y y' => w.Similar y y' ∨ (y = x ∧ y' = x'), ?_, .inr ⟨rfl, rfl⟩⟩
  rintro y y' (hy | ⟨rfl, rfl⟩)
  · obtain ⟨m, m', hm, hm', hmatch⟩ := w.closed_similar y y' hy
    exact ⟨m, m', hm, hm', hmatch.imp fun _ _ _ _ => .inl⟩
  · exact ⟨n, n', hx, hx', h.imp fun _ _ _ _ => .inl⟩

theorem Similar.matches (h : w.Similar x x') : (w.1.get x).Matches w.Similar (w.2.get x') := by
  obtain ⟨n, n', hn, hn', hm⟩ := w.closed_similar x x' h
  rw [Arena.get, hn, Arena.get, hn']
  exact hm

variable {α β : Type} {ρ : (NodeId → NodeId → Prop) → α → β → Prop}

/-- Values that are related in all later arenas, as `ρ` tells from how nodes are related there. -/
def Lasting (w : Arenas) (ρ : (NodeId → NodeId → Prop) → α → β → Prop) (a : α) (b : β) : Prop :=
  ∀ u, w.Later u → ρ u.Similar a b

theorem Lasting.now {a : α} {b : β} (h : w.Lasting ρ a b) : ρ w.Similar a b := h w (.refl w)

end Arenas

/-! ### Runs that agree -/

namespace Building

variable {α β γ δ : Type} {w : Arenas}
variable {ρ : (NodeId → NodeId → Prop) → α → β → Prop}
variable {σ : (NodeId → NodeId → Prop) → γ → δ → Prop}

/-- Ends of two runs that fail both, or give values that are related from then on. -/
inductive Ends (w : Arenas) (ρ : (NodeId → NodeId → Prop) → α → β → Prop) :
    Except Failure α × Arena → Except Failure β × Arena → Prop
  | error (e e' : Failure) (b b' : Arena) : Ends w ρ (.error e, b) (.error e', b')
  | ok {a : α} {a' : β} {b b' : Arena} (hw : w.Later (b, b')) (h : Arenas.Lasting (b, b') ρ a a') :
      Ends w ρ (.ok a, b) (.ok a', b')

/-- Two computations agree when they are run from two arenas. -/
def Agree (w : Arenas) (m : Building α) (m' : Building β)
    (ρ : (NodeId → NodeId → Prop) → α → β → Prop) : Prop :=
  Ends w ρ (outcome m w.1) (outcome m' w.2)

theorem Agree.pure {a : α} {b : β} (h : w.Lasting ρ a b) : Agree w (Pure.pure a) (Pure.pure b) ρ :=
  .ok (.refl w) h

theorem Agree.throw (e e' : Failure) : Agree w (throw e : Building α) (throw e' : Building β) ρ :=
  .error e e' w.1 w.2

theorem Agree.bind {m : Building α} {m' : Building β} {f : α → Building γ} {f' : β → Building δ}
    (hm : Agree w m m' ρ)
    (hf : ∀ {u a b}, w.Later u → u.Lasting ρ a b → Agree u (f a) (f' b) σ) :
    Agree w (m >>= f) (m' >>= f') σ := by
  unfold Agree at hm ⊢
  rw [outcome_bind, outcome_bind]
  generalize outcome m w.1 = r, outcome m' w.2 = r' at hm
  cases hm with
  | error e e' b b' => exact .error e e' b b'
  | @ok a a' b b' hw h =>
    have hnext := hf hw h
    unfold Agree at hnext
    dsimp only at hnext ⊢
    generalize outcome (f a) b = r, outcome (f' a') b' = r' at hnext
    cases hnext with
    | error e e' b b' => exact .error e e' b b'
    | ok hu h => exact .ok (hw.trans hu) h

theorem Agree.map {m : Building α} {m' : Building β} (f : α → γ) (f' : β → δ)
    (hm : Agree w m m' ρ) (hf : ∀ {S a b}, ρ S a b → σ S (f a) (f' b)) :
    Agree w (f <$> m) (f' <$> m') σ := by
  rw [map_eq_pure_bind, map_eq_pure_bind]
  exact hm.bind fun _ ha => .pure fun t ht => hf (ha t ht)

theorem agree_add {node node' : SchemaNode}
    (h : w.Lasting (fun S n n' => n.Matches S n') node node') :
    Agree w (add node) (add node') fun S => S := by
  refine .ok ⟨w.1.kept_push node, w.2.kept_push node'⟩ fun u hu => ?_
  refine .of_matches (hu.1 _ node ?_) (hu.2 _ node' ?_)
    (h u (.trans ⟨w.1.kept_push node, w.2.kept_push node'⟩ hu))
  · rw [Arena.get?_push, if_pos rfl]
  · rw [Arena.get?_push, if_pos rfl]

theorem agree_ofExcept {R : α → β → Prop} {x : Except Failure α} {x' : Except Failure β}
    (h : ExceptAlike R x x') : Agree w (ofExcept x) (ofExcept x') fun _ => R := by
  cases h with
  | error e e' => exact .throw e e'
  | ok h => exact .pure fun _ _ => h

/-- Lists of computations that agree one by one. -/
theorem agree_mapM {f : α → Building γ} {f' : β → Building δ} {xs : List α} {ys : List β}
    (h : List.Forall₂ (fun x y => ∀ w, Agree w (f x) (f' y) σ) xs ys) :
    ∀ w, Agree w (xs.mapM f) (ys.mapM f') fun S => List.Forall₂ (σ S) := by
  induction h with
  | nil => exact fun w => .pure fun _ _ => .nil
  | cons hx _ ih =>
    intro w
    rw [List.mapM_cons, List.mapM_cons]
    refine (hx w).bind fun {u _ _} _ hx => (ih u).bind fun hu hrest => .pure fun t ht => ?_
    exact .cons (hx t (hu.trans ht)) (hrest t ht)

/-! ### The same computation run twice -/

/-- A computation that agrees with itself, whatever arenas it is run from. -/
def Uniform (m : Building α) (ρ : (NodeId → NodeId → Prop) → α → α → Prop) : Prop :=
  ∀ w, Agree w m m ρ

section Uniform

variable {m : Building α} {ρ : (NodeId → NodeId → Prop) → α → α → Prop}

theorem uniform_pure {a : α} (h : ∀ S, ρ S a a) : Uniform (Pure.pure a) ρ :=
  fun _ => .pure fun _ _ => h _

theorem uniform_ofExcept (x : Except Failure α) : Uniform (ofExcept x) fun _ => Eq := by
  intro w
  cases x with
  | error e => exact .throw e e
  | ok a => exact .pure fun _ _ => rfl

theorem Uniform.map (hm : Uniform m ρ) (f : α → γ) {σ : (NodeId → NodeId → Prop) → γ → γ → Prop}
    (hf : ∀ {S a b}, ρ S a b → σ S (f a) (f b)) : Uniform (f <$> m) σ :=
  fun w => (hm w).map f f hf

/-- A computation that agrees with itself, before two that agree on what it gives. -/
theorem Uniform.bind (ρ : (NodeId → NodeId → Prop) → α → α → Prop) (hm : Uniform m ρ)
    {f : α → Building γ} {f' : α → Building δ}
    (hf : ∀ {u a b}, w.Later u → u.Lasting ρ a b → Agree u (f a) (f' b) σ) :
    Agree w (m >>= f) (m >>= f') σ :=
  (hm w).bind hf

end Uniform

/-! ### In any order -/

section Order

variable {f : α → Building γ} {f' : β → Building δ} {xs : List α} {ys : List β}

/-- What a list of computations that keep their arenas has done when it gives values. -/
theorem parts_of_mapM
    (hkept : ∀ x ∈ xs, ∀ {s c t}, outcome (f x) s = (.ok c, t) → s.Kept t) {s : Arena}
    {cs : List γ} {t : Arena} (h : outcome (xs.mapM f) s = (.ok cs, t)) :
    s.Kept t ∧ Covers (fun x c => ∃ s' t', outcome (f x) s' = (.ok c, t') ∧ t'.Kept t) xs cs := by
  induction xs generalizing s cs with
  | nil =>
    rw [List.mapM_nil] at h
    cases h
    exact ⟨fun _ _ hx => hx, fun _ hx => absurd hx List.not_mem_nil,
      fun _ hx => absurd hx List.not_mem_nil⟩
  | cons x xs ih =>
    rw [List.mapM_cons] at h
    obtain ⟨c, u, hx, h⟩ := outcome_bind_eq_ok.1 h
    obtain ⟨cs, v, hxs, h⟩ := outcome_bind_eq_ok.1 h
    cases h
    obtain ⟨huv, hall, hall'⟩ := ih (fun y hy => hkept y (List.mem_cons_of_mem x hy)) hxs
    have hsu := hkept x List.mem_cons_self hx
    refine ⟨fun y n hy => huv y n (hsu y n hy), fun y hy => ?_, fun d hd => ?_⟩
    · rcases List.mem_cons.1 hy with rfl | hy
      · exact ⟨c, List.mem_cons_self, s, u, hx, huv⟩
      · obtain ⟨d, hd, hpart⟩ := hall y hy
        exact ⟨d, List.mem_cons_of_mem c hd, hpart⟩
    · rcases List.mem_cons.1 hd with rfl | hd
      · exact ⟨x, List.mem_cons_self, s, u, hx, huv⟩
      · obtain ⟨y, hy, hpart⟩ := hall' d hd
        exact ⟨y, List.mem_cons_of_mem x hy, hpart⟩

theorem mapM_gives (h : ∀ x ∈ xs, ∀ s, ∃ c t, outcome (f x) s = (.ok c, t)) (s : Arena) :
    ∃ cs t, outcome (xs.mapM f) s = (.ok cs, t) := by
  induction xs generalizing s with
  | nil => exact ⟨[], s, rfl⟩
  | cons x xs ih =>
    obtain ⟨c, t, hx⟩ := h x List.mem_cons_self s
    obtain ⟨cs, u, hxs⟩ := ih (fun y hy => h y (List.mem_cons_of_mem x hy)) t
    rw [List.mapM_cons]
    exact ⟨c :: cs, u, outcome_bind_eq_ok.2 ⟨c, t, hx, outcome_bind_eq_ok.2 ⟨cs, u, hxs, rfl⟩⟩⟩

theorem Agree.ends {m : Building α} {m' : Building β} {s s' : Arena} (h : Agree (s, s') m m' ρ)
    {r : Except Failure α × Arena} {r' : Except Failure β × Arena} (hm : outcome m s = r)
    (hm' : outcome m' s' = r') : Ends (s, s') ρ r r' := by
  subst hm hm'
  exact h

theorem gives_left {m : Building α} {m' : Building β} (h : ∀ w, Agree w m m' ρ) {s t : Arena}
    {a : α} (hm : outcome m s = (.ok a, t)) (s' : Arena) :
    s.Kept t ∧ ∃ b t', outcome m' s' = (.ok b, t') := by
  rcases hm' : outcome m' s' with ⟨e | b, t'⟩ <;> cases (h _).ends hm hm'
  next hw _ => exact ⟨hw.1, b, t', rfl⟩

theorem gives_right {m : Building α} {m' : Building β} (h : ∀ w, Agree w m m' ρ) {s' t' : Arena}
    {b : β} (hm' : outcome m' s' = (.ok b, t')) (s : Arena) :
    s'.Kept t' ∧ ∃ a t, outcome m s = (.ok a, t) := by
  rcases hm : outcome m s with ⟨e | a, t⟩ <;> cases (h _).ends hm hm'
  next hw _ => exact ⟨hw.2, a, t, rfl⟩

theorem lasting {m : Building α} {m' : Building β} (h : ∀ w, Agree w m m' ρ) {s s' t t' : Arena}
    {a : α} {b : β} (hm : outcome m s = (.ok a, t)) (hm' : outcome m' s' = (.ok b, t')) :
    Arenas.Lasting (t, t') ρ a b := by
  cases (h _).ends hm hm' with
  | ok _ h => exact h

/-- Lists of computations agree when each of either list agrees with one of the other. -/
theorem agree_mapM_of_covers (h : Covers (fun x y => ∀ w, Agree w (f x) (f' y) σ) xs ys) :
    ∀ w, Agree w (xs.mapM f) (ys.mapM f') fun S => Covers (σ S) := by
  rintro ⟨s, s'⟩
  obtain ⟨hleft, hright⟩ := h
  have hkept : ∀ x ∈ xs, ∀ {s c t}, outcome (f x) s = (.ok c, t) → s.Kept t := by
    intro x hx s c t hc
    obtain ⟨y, -, hxy⟩ := hleft x hx
    exact (gives_left hxy hc s).1
  have hkept' : ∀ y ∈ ys, ∀ {s c t}, outcome (f' y) s = (.ok c, t) → s.Kept t := by
    intro y hy s c t hc
    obtain ⟨x, -, hxy⟩ := hright y hy
    exact (gives_right hxy hc s).1
  unfold Agree
  dsimp only
  rcases hr : outcome (xs.mapM f) s with ⟨e | cs, t⟩ <;>
    rcases hr' : outcome (ys.mapM f') s' with ⟨e' | ds, t'⟩
  · exact .error e e' t t'
  -- each part has a partner in the other run, so it cannot fail when the other run does not
  · obtain ⟨-, hothers, -⟩ := parts_of_mapM hkept' hr'
    obtain ⟨cs, u, hgives⟩ := mapM_gives (fun x hx s => by
      obtain ⟨y, hy, hxy⟩ := hleft x hx
      obtain ⟨d, -, s', t', hd, -⟩ := hothers y hy
      exact (gives_right hxy hd s).2) s
    rw [hr] at hgives
    cases hgives
  · obtain ⟨-, hparts, -⟩ := parts_of_mapM hkept hr
    obtain ⟨ds, u, hgives⟩ := mapM_gives (fun y hy s' => by
      obtain ⟨x, hx, hxy⟩ := hright y hy
      obtain ⟨c, -, s, t, hc, -⟩ := hparts x hx
      exact (gives_left hxy hc s').2) s'
    rw [hr'] at hgives
    cases hgives
  · obtain ⟨hst, hparts, hparts'⟩ := parts_of_mapM hkept hr
    obtain ⟨hst', hothers, hothers'⟩ := parts_of_mapM hkept' hr'
    refine .ok ⟨hst, hst'⟩ fun u hu => ⟨fun c hc => ?_, fun d hd => ?_⟩
    · obtain ⟨x, hx, s, v, hx', hv⟩ := hparts' c hc
      obtain ⟨y, hy, hxy⟩ := hleft x hx
      obtain ⟨d, hd, s', v', hy', hv'⟩ := hothers y hy
      exact ⟨d, hd, lasting hxy hx' hy' u (.trans ⟨hv, hv'⟩ hu)⟩
    · obtain ⟨y, hy, s', v', hy', hv'⟩ := hothers' d hd
      obtain ⟨x, hx, hxy⟩ := hright y hy
      obtain ⟨c, hc, s, v, hx', hv⟩ := hparts x hx
      exact ⟨c, hc, lasting hxy hx' hy' u (.trans ⟨hv, hv'⟩ hu)⟩

end Order

end Building

/-! ### Schemas -/

namespace Schema

open Building

/-- Enumerations and primitive types say the same in any arena. -/
theorem matches_plainKind? {S : NodeId → NodeId → Prop} {fields : Assoc String Json}
    {declared : Option String} {kind : SchemaKind} (h : plainKind? fields declared = some kind) :
    kind.Matches S kind := by
  obtain ⟨p, -, rfl⟩ := Option.map_eq_some_iff.1 h
  split
  · exact .enum _ _
  · exact .primitive _ _

mutual

theorem uniform_classify (v : Json) (location : String) :
    Uniform (classify v location) fun S => S := by
  intro w
  match v with
  | .obj fields =>
    rw [classify]
    refine Uniform.bind _ (uniform_ofExcept _) fun {w _ _} _ hdeclared => ?_
    obtain rfl := hdeclared.now
    refine Uniform.bind _ (uniform_classifyHints fields location) fun {w _ _} _ hhints => ?_
    refine Uniform.bind _ (uniform_classifyKind fields _ location) fun hw hkind => ?_
    exact agree_add fun t ht => ⟨hkind t ht, rfl, rfl, hhints t (hw.trans ht)⟩
  | .null | .bool _ | .num _ | .str _ | .arr _ =>
    rw [classify]
    · exact agree_add fun t _ => ⟨.empty, rfl, rfl, rfl, .none, .nil⟩
    · simp
termination_by (v.size, 0)
decreasing_by all_goals simp only [Json.size]; omega

theorem uniform_classifyHints (fields : Assoc String Json) (location : String) :
    Uniform (classifyHints fields location) fun S h h' => h.Matches S h' := by
  intro w
  rw [classifyHints]
  refine Uniform.bind (fun S => Option.Rel S) ?_ fun {w definition _} _ hdefinition => ?_
  · split
    · next v hv =>
      have hlt := size_lt_of_hint? hv
      exact (uniform_classify v _).map some .some
    · exact uniform_pure fun _ => .none
  refine Uniform.bind (fun S => List.Forall₂ S) ?_ fun {w _ _} hw harguments => ?_
  · split
    · next vs hvs =>
      have hlt := sizes_lt_of_hint? hvs
      exact uniform_classifyAll vs _ 0
    · exact uniform_pure fun _ => .nil
  refine Uniform.bind _ (uniform_ofExcept _) fun hu henum => .pure fun t ht => ?_
  obtain rfl := henum.now
  exact ⟨rfl, hdefinition t ((hw.trans hu).trans ht), harguments t (hu.trans ht)⟩
termination_by (Json.fieldSizes fields, 1)
decreasing_by all_goals omega

theorem uniform_classifyKind (fields : Assoc String Json) (declared : Option String)
    (location : String) :
    Uniform (classifyKind fields declared location) fun S k k' => k.Matches S k' := by
  rw [classifyKind]
  split
  · exact uniform_pure fun _ => .reference _
  · split
    · exact (uniform_classifyObject fields location).map SchemaKind.object .object
    · split
      · split
        · next v hv =>
          have hlt := Json.size_lt_of_get? hv
          intro w
          exact Uniform.bind _ (uniform_classify v _) fun _ hv => .pure fun t ht =>
            .array (.some (hv t ht))
        · exact uniform_pure fun _ => .array .none
      · split
        · next kind hkind => exact uniform_pure fun _ => matches_plainKind? hkind
        · split
          · next how members hm =>
            have hlt := sizes_lt_of_combination? hm
            intro w
            exact Uniform.bind _ (uniform_classifyAll members _ 0) fun _ hall =>
              .pure fun t ht => .combination how (hall t ht)
          · exact uniform_pure fun _ => .empty
termination_by (Json.fieldSizes fields, 2)
decreasing_by all_goals omega

theorem uniform_classifyObject (fields : Assoc String Json) (location : String) :
    Uniform (classifyObject fields location) fun S s s' => s.Matches S s' := by
  intro w
  rw [classifyObject]
  refine Uniform.bind (fun S => Assoc.Alike S) ?_ fun {w _ _} _ hproperties => ?_
  · split
    · next members hm =>
      have hlt := fieldSizes_lt_of_get? hm
      exact uniform_classifyMembers members location
    · exact uniform_pure fun _ => .nil
  refine Uniform.bind (fun S => List.Forall₂ S) ?_ fun {w _ _} hw hallOf => ?_
  · split
    · next members hm =>
      have hlt := sizes_lt_of_items? hm
      exact uniform_classifyAll members _ 0
    · exact uniform_pure fun _ => .nil
  refine Uniform.bind (fun S => Option.Rel (Additional.Matches S)) ?_ fun hu hadditional =>
    .pure fun t ht => ?_
  · split
    · exact uniform_pure fun _ => .none
    · exact uniform_pure fun _ => .none
    · exact uniform_pure fun _ => .none
    · exact uniform_pure fun _ => .some .any
    · next v _ _ _ hv =>
      have hlt := Json.size_lt_of_get? hv
      intro w
      exact Uniform.bind _ (uniform_classify v _) fun _ hv => .pure fun t ht =>
        .some (.schema (hv t ht))
  · exact ⟨hproperties t ((hw.trans hu).trans ht), rfl, hallOf t (hu.trans ht), hadditional t ht⟩
termination_by (Json.fieldSizes fields, 1)
decreasing_by all_goals omega

theorem uniform_classifyMembers (members : List (String × Json)) (location : String) :
    Uniform (classifyMembers members location) fun S => Assoc.Alike S := by
  match members with
  | [] =>
    rw [classifyMembers]
    exact uniform_pure fun _ => .nil
  | (name, v) :: rest =>
    intro w
    rw [classifyMembers]
    refine Uniform.bind _ (uniform_classify v _) fun {w _ _} _ hv => ?_
    refine Uniform.bind _ (uniform_classifyMembers rest location) fun hw hrest =>
      .pure fun t ht => ?_
    exact .cons ⟨rfl, hv t (hw.trans ht)⟩ (hrest t ht)
termination_by (Json.fieldSizes members, 0)
decreasing_by all_goals simp only [Json.fieldSizes]; omega

theorem uniform_classifyAll (vs : List Json) (location : String) (index : Nat) :
    Uniform (classifyAll vs location index) fun S => List.Forall₂ S := by
  match vs with
  | [] =>
    rw [classifyAll]
    exact uniform_pure fun _ => .nil
  | v :: rest =>
    intro w
    rw [classifyAll]
    refine Uniform.bind _ (uniform_classify v _) fun {w _ _} _ hv => ?_
    refine Uniform.bind _ (uniform_classifyAll rest location (index + 1)) fun hw hrest =>
      .pure fun t ht => ?_
    exact .cons (hv t (hw.trans ht)) (hrest t ht)
termination_by (Json.sizes vs, 0)
decreasing_by all_goals simp only [Json.sizes]; omega

end

end Schema

end TypedClient
