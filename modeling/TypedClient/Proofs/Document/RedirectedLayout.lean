import TypedClient.Proofs.Document.Named
import TypedClient.Proofs.Document.SameReading
import TypedClient.Proofs.Schema.Redirected

/-! Reading documents in the newer layout, with and without another name for a schema. Where the
document without the name is read, the other one is read as well and says the same once its
references are put back, or a chain of references has become too long in it. -/

namespace TypedClient

namespace Building

variable {late : Failure → Prop} {a b : String} {α β γ δ : Type} {w : Arenas}
variable {ρ : (NodeId → NodeId → Prop) → α → β → Prop}
variable {σ : (NodeId → NodeId → Prop) → γ → δ → Prop}

/-- The arenas of two runs, with references to `a` put to `b`. -/
def back (a b : String) (w : Arenas) : Arenas := (w.1.redirect a b, w.2.redirect a b)

/-- Values that are related in all later arenas, with references to `a` put to `b`. -/
def Lasts (a b : String) (w : Arenas) (ρ : (NodeId → NodeId → Prop) → α → β → Prop) (x : α)
    (y : β) : Prop :=
  ∀ u, w.Later u → ρ (back a b u).Similar x y

theorem Lasts.now {x : α} {y : β} (h : Lasts a b w ρ x y) : ρ (back a b w).Similar x y :=
  h w (.refl w)

/-- Nodes that are similar stay similar in later arenas, with references put to another name and
beside nodes that are the same then. -/
theorem similar_back {s t t' : Arena} {x y : NodeId} (h : Arenas.Similar (s, t) x y)
    (ht : t.redirect a b = t'.redirect a b) {u : Arenas} (hu : Arenas.Later (s, t') u) :
    (back a b u).Similar x y := by
  obtain ⟨S, hS, hxy⟩ := h
  refine ⟨S, fun x' y' hxy' => ?_, hxy⟩
  obtain ⟨n, n', hn, hn', hmatches⟩ := hS x' y' hxy'
  have hsame : (t'.get? y').map (SchemaNode.redirect a b) = some (n'.redirect a b) := by
    rw [← Arena.get?_redirect, ← ht, Arena.get?_redirect, hn', Option.map_some]
  obtain ⟨n'', hn'', hredirect⟩ := Option.map_eq_some_iff.1 hsame
  refine ⟨n.redirect a b, n'.redirect a b, ?_, ?_, hmatches.redirect⟩
  · show (u.1.redirect a b).get? x' = _
    rw [Arena.get?_redirect, hu.1 x' n hn, Option.map_some]
  · show (u.2.redirect a b).get? y' = _
    rw [Arena.get?_redirect, hu.2 y' n'' hn'', Option.map_some, hredirect]

/-- Ends of two runs. Where the first one gives a value, so does the second one, related from then
on, or it is too late for that. -/
inductive OnwardEnds (late : Failure → Prop) (a b : String) (w : Arenas)
    (ρ : (NodeId → NodeId → Prop) → α → β → Prop) :
    Except Failure α × Arena → Except Failure β × Arena → Prop
  | error (e : Failure) (s : Arena) (r : Except Failure β × Arena) :
      OnwardEnds late a b w ρ (.error e, s) r
  | ok {x : α} {y : β} {s s' : Arena} (hw : w.Later (s, s')) (h : Lasts a b (s, s') ρ x y) :
      OnwardEnds late a b w ρ (.ok x, s) (.ok y, s')
  | late (x : α) (s s' : Arena) {e : Failure} (h : late e) :
      OnwardEnds late a b w ρ (.ok x, s) (.error e, s')

/-- From the two arenas, the second computation does what the first one does, unless it is too late
for that. -/
def Onward (late : Failure → Prop) (a b : String) (w : Arenas) (m : Building α) (m' : Building β)
    (ρ : (NodeId → NodeId → Prop) → α → β → Prop) : Prop :=
  OnwardEnds late a b w ρ (outcome m w.1) (outcome m' w.2)

namespace Onward

variable {m : Building α} {m' : Building β}

theorem pure {x : α} {y : β} (h : Lasts a b w ρ x y) :
    Onward late a b w (Pure.pure x) (Pure.pure y) ρ :=
  .ok (.refl _) h

theorem throw_left (e : Failure) (m' : Building β) :
    Onward late a b w (throw e : Building α) m' ρ :=
  .error e w.1 _

theorem of_late {e : Failure} (m : Building α) (h : late e) :
    Onward late a b w m (throw e : Building β) ρ := by
  unfold Onward
  rcases outcome m w.1 with ⟨e' | x, s⟩
  · exact .error e' s _
  · exact .late x s _ h

theorem bind {f : α → Building γ} {f' : β → Building δ} (hm : Onward late a b w m m' ρ)
    (hf : ∀ {u x y}, w.Later u → Lasts a b u ρ x y →
      Onward late a b u (f x) (f' y) σ) : Onward late a b w (m >>= f) (m' >>= f') σ := by
  unfold Onward at hm ⊢
  rw [outcome_bind, outcome_bind]
  generalize outcome m w.1 = r, outcome m' w.2 = r' at hm
  cases hm with
  | error e s => exact .error e s _
  | @ok x y s s' hw h =>
    have hnext := hf (u := (s, s')) hw h
    unfold Onward at hnext
    dsimp only at hnext ⊢
    generalize outcome (f x) s = r, outcome (f' y) s' = r' at hnext
    cases hnext with
    | error e t => exact .error e t _
    | ok hu h => exact .ok (hw.trans hu) h
    | late z t t' h => exact .late z t t' h
  | late x s s' h =>
    dsimp only
    rcases outcome (f x) s with ⟨e | z, t⟩
    · exact .error e t _
    · exact .late z t s' h

theorem map {f : α → γ} {f' : β → δ} (hm : Onward late a b w m m' ρ)
    (hf : ∀ {S x y}, ρ S x y → σ S (f x) (f' y)) : Onward late a b w (f <$> m) (f' <$> m') σ := by
  rw [map_eq_pure_bind, map_eq_pure_bind]
  exact hm.bind fun _ h => .pure fun t ht => hf (h t ht)

theorem ofExcept {R : α → β → Prop} {x : Except Failure α} {y : Except Failure β}
    (h : Leads late R x y) :
    Onward late a b w (Building.ofExcept x) (Building.ofExcept y) fun _ => R := by
  cases h with
  | error e => exact throw_left e _
  | ok h => exact pure fun _ _ => h
  | late x h => exact of_late _ h

theorem mapM {f : α → Building γ} {f' : β → Building δ} {xs : List α} {ys : List β}
    (h : List.Forall₂ (fun x y => ∀ w, Onward late a b w (f x) (f' y) σ) xs ys) :
    ∀ w, Onward late a b w (xs.mapM f) (ys.mapM f') fun S => List.Forall₂ (σ S) := by
  induction h with
  | nil => exact fun w => pure fun _ _ => .nil
  | cons hx _ ih =>
    intro w
    rw [List.mapM_cons, List.mapM_cons]
    refine (hx w).bind fun {u _ _} _ hx => (ih u).bind fun hu hrest => pure fun t ht => ?_
    exact .cons (hx t (hu.trans ht)) (hrest t ht)

theorem ends (h : Onward late a b w m m' ρ) {r : Except Failure α × Arena}
    {r' : Except Failure β × Arena} (hm : outcome m w.1 = r) (hm' : outcome m' w.2 = r') :
    OnwardEnds late a b w ρ r r' := by
  subst hm hm'
  exact h

/-- A step that the second computation takes by itself. -/
theorem skip {n : Building δ} {k : δ → Building β} {y : δ} {s' : Arena}
    (hn : outcome n w.2 = (.ok y, s')) (hkept : w.2.Kept s')
    (h : Onward late a b (w.1, s') m (k y) ρ) : Onward late a b w m (n >>= k) ρ := by
  unfold Onward at h ⊢
  rw [outcome_bind, hn]
  dsimp only at h ⊢
  generalize outcome m w.1 = r, outcome (k y) s' = r' at h
  cases h with
  | error e s => exact .error e s _
  | ok hw h =>
    have hlater : w.Later (w.1, s') := ⟨fun _ _ hx => hx, hkept⟩
    exact .ok (hlater.trans hw) h
  | late x s t h => exact .late x s t h

end Onward

end Building

namespace Document

open Json Building

variable {late : Failure → Prop} {a b : String} {w : Arenas}
variable {root root' v v' op op' : Json} {shared shared' : List Json}

/-! ### Parts of an operation -/

/-- Schemas that are read alike, once references to `a` are put to `b`. -/
def Shadowed (a b : String) (v v' : Json) : Prop :=
  ∀ location, Shadows a b id (Schema.classify v location) (Schema.classify v' location)

theorem onward_classify (h : Shadowed a b v v') (location : String) (w : Arenas) :
    Onward late a b w (Schema.classify v location) (Schema.classify v' location) fun S => S := by
  -- the schema before, read from both arenas, gives similar nodes
  have hagree := Schema.uniform_classify v location w
  have hkept := Schema.keeps_classify v' location w.2
  have hends := h location w.2 w.2 rfl
  unfold Agree at hagree
  unfold Onward
  generalize outcome (Schema.classify v location) w.1 = r,
    outcome (Schema.classify v location) w.2 = r₂ at hagree hends ⊢
  generalize outcome (Schema.classify v' location) w.2 = r' at hkept hends ⊢
  obtain ⟨hvalues, harenas⟩ := hends
  cases hagree with
  | error e => exact .error e _ _
  | @ok x y s t hw h =>
    rcases r' with ⟨e | y', t'⟩
    · cases hvalues
    · cases (show y = y' from Except.ok.inj hvalues)
      exact .ok ⟨hw.1, hkept _ _ rfl⟩ fun u hu => similar_back h.now harenas hu

/-- Parameters of which the same is read, but for the references in their schemas. -/
structure ParameterShadowed (a b : String) (v v' : Json) : Prop where
  name : v.getString? "name" = v'.getString? "name"
  place : v.getString? "in" = v'.getString? "in"
  required : v.getBool? "required" = v'.getBool? "required"
  description : v.getString? "description" = v'.getString? "description"
  schema : Option.Rel (Shadowed a b) (schemaOf? v) (schemaOf? v')

def ContentShadowed (a b : String) : Assoc String Json → Assoc String Json → Prop :=
  Assoc.Alike fun v v' =>
    Shadowed a b ((v.get? "schema").getD .null) ((v'.get? "schema").getD .null)

def BodyShadowed (a b : String) (v v' : Json) : Prop :=
  ContentShadowed a b ((v.getObject? "content").getD []) ((v'.getObject? "content").getD [])

/-- Bodies of two documents, references followed. -/
def BodiesLed (late : Failure → Prop) (a b : String) (root root' : Json) :
    Option Json → Option Json → Prop :=
  Option.Rel fun v v' =>
    Leads late (BodyShadowed a b) (Pointer.follow root v) (Pointer.follow root' v')

theorem onward_readParameter (h : ParameterShadowed a b v v') (spot : Spot) (w : Arenas) :
    Onward late a b w (readParameter spot v) (readParameter spot v') fun S p p' =>
      S p.schema p'.schema ∧ p' = { p with schema := p'.schema } := by
  unfold readParameter
  rw [h.name, h.place, h.required, h.description]
  split
  · exact .throw_left _ _
  · have hschema := h.schema
    dsimp only
    generalize ParameterPlace.ofName? _ = place
    generalize schemaOf? v = s, schemaOf? v' = s' at hschema
    cases place with
    | none => exact .throw_left _ _
    | some place =>
      cases hschema with
      | none => exact .throw_left _ _
      | some hs => exact (onward_classify hs _ w).bind fun _ hid => .pure fun t ht => ⟨hid t ht, rfl⟩

theorem onward_readContent (location : String) {content content' : Assoc String Json}
    (h : ContentShadowed a b content content') : ∀ w, Onward late a b w
      (readContent location content) (readContent location content') fun S => Assoc.Alike S := by
  induction h with
  | nil => exact fun w => .pure fun _ _ => .nil
  | @cons p p' rest rest' hp _ ih =>
    obtain ⟨mediaType, entry⟩ := p
    obtain ⟨mediaType', entry'⟩ := p'
    obtain ⟨rfl, hentry⟩ := hp
    intro w
    rw [readContent, readContent]
    refine (onward_classify hentry _ w).bind fun {u _ _} _ hid => ?_
    exact (ih u).bind fun hu hrest => .pure fun t ht =>
      .cons ⟨rfl, hid t (hu.trans ht)⟩ (hrest t ht)

theorem onward_readBody? (location : String) {u u' : Option Json}
    (h : BodiesLed late a b root root' u u') (w : Arenas) :
    Onward late a b w (readBody? root location u) (readBody? root' location u')
      fun S => Option.Rel (Body.Matches S) := by
  cases h with
  | none => exact .pure fun _ _ => .none
  | some h =>
    refine (Onward.ofExcept h).bind fun {u v v'} _ hbody => Onward.map (ρ := fun S =>
      Body.Matches S) ?_ .some
    exact (onward_readContent location hbody.now u).bind fun _ hcontent => .pure hcontent

theorem onward_readLimit? (spot : Spot) (v : Option Json) (w : Arenas) :
    Onward late a b w (readLimit? spot v) (readLimit? spot v) fun _ => Eq := by
  cases v with
  | none => exact .pure fun _ _ => rfl
  | some v =>
    rw [readLimit?]
    split
    · exact .pure fun _ _ => rfl
    · exact .throw_left _ _

/-! ### Operations -/

/-- Operations of two documents of which the same is read, but for the references in schemas. -/
structure OperationLed (late : Failure → Prop) (a b : String) (root root' : Json)
    (shared shared' : List Json) (op op' : Json) : Prop where
  parameters : Leads late (Assoc.Alike (ParameterShadowed a b))
    (mergeParameters root shared (parametersOf op))
    (mergeParameters root' shared' (parametersOf op'))
  request : BodiesLed late a b root root' (op.get? "requestBody") (op'.get? "requestBody")
  response : BodiesLed late a b root root' ((op.get? "responses").bind (·.get? "200"))
    ((op'.get? "responses").bind (·.get? "200"))
  limit : ∀ spot, readLimit? spot (op.get? "x-limit") = readLimit? spot (op'.get? "x-limit")
  text : ∀ key ∈ operationTexts, op.getString? key = op'.getString? key
  tags : ((op.getArray? "tags").getD []).filterMap Json.asString? =
    ((op'.getArray? "tags").getD []).filterMap Json.asString?

theorem onward_readOperation (h : OperationLed late a b root root' shared shared' op op')
    (spot : Spot) (w : Arenas) :
    Onward late a b w (readOperation root spot shared op) (readOperation root' spot shared' op')
      fun S => Operation.Agrees S := by
  unfold readOperation
  rw [h.limit, h.tags, h.text "operationId" (by decide), h.text "summary" (by decide),
    h.text "description" (by decide)]
  refine (Onward.ofExcept h.parameters).bind fun {w merged merged'} _ hmerged => ?_
  have hread : List.Forall₂ (fun p p' => ∀ w, Onward late a b w (readParameter spot p.2)
      (readParameter spot p'.2) fun S q q' =>
        S q.schema q'.schema ∧ q' = { q with schema := q'.schema }) merged merged' :=
    List.Forall₂.imp (fun _ _ hp => onward_readParameter hp.2 spot) hmerged.now
  refine (Onward.mapM hread w).bind fun {w _ _} _ hparameters => ?_
  refine (onward_readBody? _ h.request w).bind fun {w _ _} hw hrequest => ?_
  refine (onward_readBody? _ h.response w).bind fun {w _ _} hw' hresponse => ?_
  refine (onward_readLimit? spot _ w).bind fun hw'' hlimit => .pure fun t ht => ?_
  cases hlimit.now
  exact ⟨hparameters t (hw.trans (hw'.trans (hw''.trans ht))),
    hrequest t (hw'.trans (hw''.trans ht)), hresponse t (hw''.trans ht), rfl⟩

/-! ### Paths -/

/-- Members of path items of which the same is read, but for the references in schemas. -/
inductive MemberLed (late : Failure → Prop) (a b : String) (root root' : Json)
    (shared shared' : List Json) : String × Json → String × Json → Prop
  | operation (key : String) {fields fields' : Assoc String Json}
      (hhas : Assoc.has fields "responses" = Assoc.has fields' "responses")
      (h : OperationLed late a b root root' shared shared' (.obj fields) (.obj fields')) :
      MemberLed late a b root root' shared shared' (key, .obj fields) (key, .obj fields')
  | other (key : String) {v v' : Json} (hv : v.asObject? = none) (hv' : v'.asObject? = none) :
      MemberLed late a b root root' shared shared' (key, v) (key, v')

theorem MemberLed.key_eq {m m' : String × Json}
    (h : MemberLed late a b root root' shared shared' m m') : m.1 = m'.1 := by
  cases h <;> rfl

/-- The members of a path item that are named for methods. -/
def methodsOf (item : Json) : Assoc String Json :=
  (item.asObject?.getD []).filter fun m => (HttpMethod.ofName? m.1).isSome

def PathItemLed (late : Failure → Prop) (a b : String) (root root' item item' : Json) : Prop :=
  List.Forall₂ (MemberLed late a b root root' (parametersOf item) (parametersOf item'))
    (methodsOf item) (methodsOf item')

theorem onward_readMember {m m' : String × Json}
    (h : MemberLed late a b root root' shared shared' m m') (path : String) (w : Arenas) :
    Onward late a b w (readMember root path shared m) (readMember root' path shared' m')
      fun S => Option.Rel (Operation.Agrees S) := by
  unfold readMember
  cases h with
  | operation key hhas h =>
    dsimp only
    cases HttpMethod.ofName? key with
    | none => exact .pure fun _ _ => .none
    | some method =>
      dsimp only
      rw [hhas]
      split
      · exact (onward_readOperation h _ w).map .some
      · exact .pure fun _ _ => .none
  | @other key v v' hv hv' =>
    dsimp only
    cases HttpMethod.ofName? key with
    | none => exact .pure fun _ _ => .none
    | some method =>
      cases v with
      | obj fields => cases hv
      | null | bool | num | str | arr => exact .throw_left _ _

/-- Members of a path item that are not named for methods can be left out. -/
theorem readPathItem_eq (root : Json) (path : String) (item : Json) : readPathItem root path item =
    (methodsOf item).mapM (readMember root path (parametersOf item)) >>= fun operations =>
      pure (operations.filterMap id) := by
  have hread : ∀ (members : Assoc String Json)
      (next : List Operation → Building (List Operation)),
      (members.mapM (readMember root path (parametersOf item)) >>= fun operations =>
          next (operations.filterMap id)) =
        ((members.filter fun m => (HttpMethod.ofName? m.1).isSome).mapM
            (readMember root path (parametersOf item)) >>= fun operations =>
          next (operations.filterMap id)) := by
    intro members
    induction members with
    | nil => exact fun _ => rfl
    | cons m members ih =>
      intro next
      rw [List.mapM_cons, List.filter_cons]
      split
      · rw [List.mapM_cons]
        simp only [bind_assoc, pure_bind]
        refine bind_congr fun operation => ?_
        cases operation with
        | none => exact ih next
        | some operation => exact ih fun operations => next (operation :: operations)
      · next hmethod =>
        have hnone : readMember root path (parametersOf item) m = pure none := by
          rw [Option.not_isSome_iff_eq_none] at hmethod
          unfold readMember
          rw [hmethod]
        rw [hnone]
        simp only [bind_assoc, pure_bind]
        exact ih next
  exact hread _ pure

theorem onward_readPathItem {item item' : Json}
    (h : PathItemLed late a b root root' item item') (path : String) (w : Arenas) :
    Onward late a b w (readPathItem root path item) (readPathItem root' path item')
      fun S => List.Forall₂ (Operation.Agrees S) := by
  rw [readPathItem_eq, readPathItem_eq]
  refine (Onward.mapM (h.imp fun _ _ hm => onward_readMember hm path) w).bind fun _ hread =>
    .pure fun t ht => ?_
  exact List.rel_filterMap (fun _ _ h => h) (hread t ht)

/-- Paths whose items are read alike, once references are followed. -/
def PathsLed (late : Failure → Prop) (a b : String) (root root' : Json) : Prop :=
  Assoc.Alike (fun v v' => Leads late (PathItemLed late a b root root') (Pointer.follow root v)
    (Pointer.follow root' v'))
    ((root.getObject? "paths").getD []) ((root'.getObject? "paths").getD [])

theorem onward_readPaths (h : PathsLed late a b root root') (w : Arenas) :
    Onward late a b w (readPaths root) (readPaths root')
      fun S => List.Forall₂ (Operation.Agrees S) := by
  have hitems : List.Forall₂ (fun p p' => ∀ w, Onward late a b w
      (Building.ofExcept (Pointer.follow root p.2) >>= readPathItem root p.1)
      (Building.ofExcept (Pointer.follow root' p'.2) >>= readPathItem root' p'.1)
      fun S => List.Forall₂ (Operation.Agrees S)) ((root.getObject? "paths").getD [])
      ((root'.getObject? "paths").getD []) := by
    refine List.Forall₂.imp (fun p p' hp w => ?_) h
    obtain ⟨path, v⟩ := p
    obtain ⟨path', v'⟩ := p'
    obtain ⟨rfl, hitem⟩ := hp
    exact (Onward.ofExcept hitem).bind fun {w _ _} _ hitem =>
      onward_readPathItem hitem.now path w
  unfold readPaths
  exact (Onward.mapM hitems w).bind fun _ hread => .pure fun t ht => List.rel_flatten (hread t ht)

/-! ### Schemas -/

/-- A schema that is read in the second document only. -/
theorem onward_readSchemas {s : String} {schemas schemas' : Assoc String Json}
    (h : Assoc.OneMore (Shadowed a b) (a, .obj [("$ref", .str s)]) schemas schemas') (w : Arenas) :
    Onward late a b w (readSchemas schemas) (readSchemas schemas')
      fun S read read' => ∃ id, Assoc.OneMore S (a, id) read read' := by
  have hread : ∀ {members members' : Assoc String Json},
      Assoc.Alike (Shadowed a b) members members' → ∀ w, Onward late a b w
        (members.mapM fun p => Schema.classify p.2 p.1 >>= fun id => pure (p.1, id))
        (members'.mapM fun p => Schema.classify p.2 p.1 >>= fun id => pure (p.1, id))
        fun S => Assoc.Alike S := fun h =>
    Onward.mapM (List.Forall₂.imp (fun p q hpq w => by
      obtain ⟨name, u⟩ := p
      obtain ⟨name', u'⟩ := q
      obtain ⟨rfl, hu⟩ := hpq
      exact (onward_classify hu name w).bind fun _ hid => .pure fun t ht => ⟨rfl, hid t ht⟩) h)
  cases h with
  | intro hbefore hafter =>
    rw [readSchemas_eq_mapM, readSchemas_eq_mapM, List.mapM_append, List.mapM_append,
      List.mapM_cons]
    simp only [bind_assoc, pure_bind]
    refine (hread hbefore w).bind fun {w _ _} _ hfirst => ?_
    rw [Schema.classify_reference]
    -- the new name takes a node of its own
    let node : SchemaNode := { kind := .reference (Pointer.componentName s) }
    have hpush : w.Later (w.1, w.2.push node) := ⟨fun _ _ h => h, Arena.kept_push w.2 node⟩
    refine .skip (y := w.2.size) rfl hpush.2 ?_
    refine (hread hafter _).bind fun hw hrest => .pure fun t ht => ?_
    exact ⟨_, .intro (hfirst t (hpush.trans (hw.trans ht))) (hrest t ht)⟩

/-! ### Documents -/

/-- Documents in the newer layout of which the same is read, but for the other name. -/
structure LayoutLed (late : Failure → Prop) (a b : String) (root root' : Json) : Prop where
  paths : PathsLed late a b root root'
  schemas : ∃ s, Assoc.OneMore (Shadowed a b) (a, .obj [("$ref", .str s)]) (schemasOf root)
    (schemasOf root')
  tags : ((root.getArray? "tags").getD []).filterMap readTag? =
    ((root'.getArray? "tags").getD []).filterMap readTag?

/-- The second document has one schema more, and says what the first one does once its references
are put back. -/
structure Led (a b : String) (d d' : Document) : Prop where
  schemas : ∃ id, Assoc.OneMore (Arenas.Similar (back a b (d.arena, d'.arena))) (a, id) d.schemas
    d'.schemas
  operations : List.Forall₂ (Operation.Agrees (Arenas.Similar (back a b (d.arena, d'.arena))))
    d.operations d'.operations
  tags : d.tags = d'.tags

theorem readLayout_led (h : LayoutLed late a b root root') (version : Version) :
    Leads late (Led a b) (readLayout version root) (readLayout version root') := by
  have hread : Onward late a b ({}, {})
      (do
        let schemas ← readSchemas (schemasOf root)
        pure (schemas, ← readPaths root))
      (do
        let schemas ← readSchemas (schemasOf root')
        pure (schemas, ← readPaths root'))
      fun S r r' => (∃ id, Assoc.OneMore S (a, id) r.1 r'.1) ∧
        List.Forall₂ (Operation.Agrees S) r.2 r'.2 := by
    obtain ⟨s, hschemas⟩ := h.schemas
    refine (onward_readSchemas hschemas _).bind fun {w _ _} _ hschemas => ?_
    exact (onward_readPaths h.paths w).bind fun hw hpaths => .pure fun t ht =>
      ⟨hschemas t (hw.trans ht), hpaths t ht⟩
  unfold readLayout
  dsimp only
  split
  · exact .error _ _
  · next hr =>
    split
    · next hr' =>
      cases hread.ends hr hr' with
      | late _ _ _ hlate => exact .late _ hlate
    · next hr' =>
      cases hread.ends hr hr' with
      | ok _ hled => exact .ok ⟨hled.now.1, hled.now.2, h.tags⟩

/-! ### Limits -/

section Limits

variable {R : String → String → Prop} {under : String}

/-- No field of a limit is an object or a list. -/
theorem set_redirected (h : Redirected R under v v') (r : LimitedResource) {field : String}
    (hfield : under = "$ref" → field = "$ref") : r.set field v = r.set field v' := by
  cases h with
  | scalar | literals | list | object => rfl
  | reference => cases hfield rfl; rfl

theorem limit_redirected (h : Redirected R "x-limit" v v') :
    LimitedResource.ofJson v = LimitedResource.ofJson v' := by
  have hsets : ∀ {ms ms' : List (String × Json)},
      List.Forall₂ (fun m m' => ∀ r : LimitedResource, r.set m.1 m.2 = r.set m'.1 m'.2) ms ms' →
      ∀ r : LimitedResource, ms.foldlM (fun r m => r.set m.1 m.2) r =
        ms'.foldlM (fun r m => r.set m.1 m.2) r := by
    intro ms ms' h
    induction h with
    | nil => exact fun _ => rfl
    | cons hm _ ih =>
      intro r
      rw [List.foldlM_cons, List.foldlM_cons, hm]
      exact congrArg (_ >>= ·) (funext ih)
  generalize hkey : "x-limit" = key at h
  cases h with
  | scalar | literals => rfl
  | reference => exact absurd hkey (by decide)
  | @list _ items items' _ h =>
    have hzip := hsets (List.Forall₂.imp (fun m m' hm r => by
      rw [← hm.1]
      exact set_redirected hm.2 r nofun) (zip_redirected LimitedResource.fields h)) {}
    unfold LimitedResource.ofJson readRecord
    dsimp only
    rw [hzip, h.length_eq]
  | object hkeys hvalues =>
    refine hsets (List.Forall₂.imp (fun p q hpq r => ?_) (members_of_redirected hkeys hvalues)) {}
    rw [← hpq.1]
    exact set_redirected hpq.2 r id

theorem readLimit?_redirected {u u' : Option Json} (h : Option.Rel (Redirected R "x-limit") u u')
    (spot : Spot) : readLimit? spot u = readLimit? spot u' := by
  cases h with
  | none => rfl
  | some hu => rw [readLimit?, readLimit?, limit_redirected hu]

end Limits

/-! ### The newer layout -/

section Newer

variable {R : String → String → Prop} (hR : Schema.PutsBack R a b)

include hR

theorem schema_near (h : Near R v v') :
    Shadowed a b ((v.get? "schema").getD .null) ((v'.get? "schema").getD .null) := by
  have hget := h.get? (show "schema" ∈ readKeys by decide)
  generalize v.get? "schema" = u, v'.get? "schema" = u' at hget
  cases hget with
  | none => exact Schema.shadows_classify hR (.other rfl rfl)
  | some hu => exact Schema.shadows_classify hR hu.near

theorem ParameterShadowed.of_near (h : Near R v v') : ParameterShadowed a b v v' where
  name := h.getString? (by decide) (by decide)
  place := h.getString? (by decide) (by decide)
  required := h.getBool? (by decide)
  description := h.getString? (by decide) (by decide)
  schema := by
    have hget := h.get? (show "schema" ∈ readKeys by decide)
    have hcontent := h.getObject? (show "content" ∈ readKeys by decide)
    unfold schemaOf?
    generalize v.get? "schema" = u, v'.get? "schema" = u' at hget
    generalize (v.getObject? "content").getD [] = content,
      (v'.getObject? "content").getD [] = content' at hcontent
    cases hget with
    | some hu => exact .some (Schema.shadows_classify hR hu.near)
    | none =>
      cases hcontent with
      | nil => exact .none
      | cons hp _ =>
        exact rel_imp (hp.2.near.get? (by decide)) fun _ _ _ _ hu =>
          Schema.shadows_classify hR hu.near

theorem BodyShadowed.of_near (h : Near R v v') : BodyShadowed a b v v' :=
  (h.getObject? (by decide)).imp fun _ _ hp => ⟨hp.1, schema_near hR hp.2.near⟩

omit hR

theorem parametersOf_near (h : Near R v v') :
    List.Forall₂ (Near R) (parametersOf v) (parametersOf v') :=
  (h.getArray? (by decide) (by decide)).imp fun _ _ => Redirected.near

variable {own own' : List Json}
variable (hfollow : ∀ v v', Near R v v' →
  Leads late (Near R) (Pointer.follow root v) (Pointer.follow root' v'))

include hfollow

theorem mergeParameters_near (hshared : List.Forall₂ (Near R) shared shared')
    (hown : List.Forall₂ (Near R) own own') :
    Leads late (Assoc.Alike (Near R)) (mergeParameters root shared own)
      (mergeParameters root' shared' own') := by
  refine foldlM_leads (List.rel_append hshared hown) .nil fun hm hu =>
    (hfollow _ _ hu).map fun {v w} hvw => ?_
  rw [parameterKey, parameterKey, hvw.getString? (by decide) (by decide),
    hvw.getString? (by decide) (by decide)]
  exact Assoc.Alike.put hm _ hvw

include hR

theorem bodiesLed_of_rel {key : String} {u u' : Option Json}
    (hu : Option.Rel (Redirected R key) u u') : BodiesLed late a b root root' u u' :=
  rel_imp hu fun _ _ _ _ hu => (hfollow _ _ hu.near).imp fun _ _ => .of_near hR

theorem operationLed_of_near (hshared : List.Forall₂ (Near R) shared shared')
    (hv : Near R v v') : OperationLed late a b root root' shared shared' v v' where
  parameters := (mergeParameters_near hfollow hshared (parametersOf_near hv)).imp fun _ _ hm =>
    hm.imp fun _ _ => .of_near hR
  request := bodiesLed_of_rel hR hfollow (hv.get? (by decide))
  response := by
    have hresponses := hv.get? (show "responses" ∈ readKeys by decide)
    generalize v.get? "responses" = u, v'.get? "responses" = u' at hresponses
    cases hresponses with
    | none => exact .none
    | some hu => exact bodiesLed_of_rel hR hfollow (hu.near.get? (by decide))
  limit spot := readLimit?_redirected (hv.get? (by decide)) spot
  text key hkey := by
    have hall : ∀ key ∈ operationTexts, key ∈ readKeys ∧ key ≠ "$ref" := by decide
    exact hv.getString? (hall key hkey).1 (hall key hkey).2
  tags := texts_redirected (hv.getArray? (by decide) (by decide))

theorem memberLed_of_near (hshared : List.Forall₂ (Near R) shared shared') (key : String)
    (hm : Near R v v') : MemberLed late a b root root' shared shared' (key, v) (key, v') := by
  have hhas := hm.isSome_get? (show "responses" ∈ readKeys by decide)
  have hled := operationLed_of_near hR hfollow hshared hm
  cases hm with
  | object => exact .operation key hhas hled
  | other hv hv' => exact .other key hv hv'

theorem pathItemLed_of_near (hv : Near R v v') : PathItemLed late a b root root' v v' := by
  refine hv.members.methods.imp fun m m' hm => ?_
  obtain ⟨key, u⟩ := m
  obtain ⟨key', u'⟩ := m'
  obtain ⟨rfl, hu⟩ := hm
  exact memberLed_of_near hR hfollow (parametersOf_near hv) key hu.near

omit hR hfollow in
theorem tags_near (h : Near R root root') : ((root.getArray? "tags").getD []).filterMap readTag? =
    ((root'.getArray? "tags").getD []).filterMap readTag? := by
  rw [← List.forall₂_eq_eq_eq]
  refine List.rel_filterMap (fun v v' hv => ?_) (h.getArray? (by decide) (by decide))
  rw [readTag?, readTag?, hv.near.getString? (by decide) (by decide),
    hv.near.getString? (by decide) (by decide)]
  exact rel_refl (fun _ => rfl) _

omit hR hfollow in
theorem schemasOf_extended {added : String × Json}
    (h : Extended R added ["components", "schemas"] root root') :
    Assoc.OneMore (Near R) added (schemasOf root) (schemasOf root') ∧
      (Assoc.keys (schemasOf root')).Nodup := by
  obtain ⟨components, components', hc, hc', h⟩ := h.get?_under
  obtain ⟨schemas, schemas', hs, hs', h⟩ := h.get?_under
  unfold schemasOf Json.getObject?
  rw [hc, hc', Option.bind_some, Option.bind_some, hs, hs']
  exact h.oneMore

/-- A document in the newer layout with another name for a schema. -/
theorem layoutLed_of_extended {s : String}
    (h : Extended R (a, .obj [("$ref", .str s)]) ["components", "schemas"] root root') :
    LayoutLed late a b root root' where
  paths := by
    have hpaths := (h.near (by decide)).getObject? (show "paths" ∈ readKeys by decide)
    exact hpaths.imp fun _ _ hp => ⟨hp.1, (hfollow _ _ hp.2.near).imp fun _ _ =>
      pathItemLed_of_near hR hfollow⟩
  schemas := ⟨s, (schemasOf_extended h).1.imp fun _ _ => Schema.shadows_classify hR⟩
  tags := tags_near (h.near (by decide))

end Newer

end Document

end TypedClient
