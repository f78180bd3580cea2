import TypedClient.Proofs.Document.Alike
import TypedClient.Proofs.Document.Forest
import TypedClient.Proofs.Schema.ReadAlike
import TypedClient.Proofs.Schema.Similar

/-! Reading documents that say the same in another order. What is read of an operation is told by
its parameters, its bodies and its limit; so runs over documents that agree in these and in their
schemas, whatever the order, agree as well, and the documents they read are alike. -/

namespace TypedClient

section Weaker

variable {S T : NodeId → NodeId → Prop} {o o' : Operation} {b b' : Body} {x : NodeId}

theorem Operation.mem_roots_of_request (hb : b ∈ o.request.toList) (hx : x ∈ b.roots) :
    x ∈ o.roots :=
  List.mem_append_left _ (List.mem_append_right _ (List.mem_flatMap.2 ⟨b, hb, hx⟩))

theorem Operation.mem_roots_of_response (hb : b ∈ o.response.toList) (hx : x ∈ b.roots) :
    x ∈ o.roots :=
  List.mem_append_right _ (List.mem_flatMap.2 ⟨b, hb, hx⟩)

theorem Body.Matches.imp (h : b.Matches S b')
    (hST : ∀ x ∈ b.roots, ∀ y ∈ b'.roots, S x y → T x y) : b.Matches T b' :=
  forall₂_imp h fun _ hp _ hp' hS =>
    ⟨hS.1, hST _ (List.mem_map_of_mem hp) _ (List.mem_map_of_mem hp') hS.2⟩

theorem Operation.Matches.imp (h : o.Matches S o')
    (hST : ∀ x ∈ o.roots, ∀ y ∈ o'.roots, S x y → T x y) : o.Matches T o' where
  parameters := forall₂_imp h.parameters fun _ hp _ hp' hm => ⟨hm.place, hST _
    (List.mem_append_left _ (List.mem_append_left _ (List.mem_map_of_mem hp))) _
    (List.mem_append_left _ (List.mem_append_left _ (List.mem_map_of_mem hp'))) hm.schema⟩
  request := rel_imp h.request fun _ hb _ hb' hm => hm.imp fun _ hx _ hy =>
    hST _ (mem_roots_of_request hb hx) _ (mem_roots_of_request hb' hy)
  response := rel_imp h.response fun _ hb _ hb' hm => hm.imp fun _ hx _ hy =>
    hST _ (mem_roots_of_response hb hx) _ (mem_roots_of_response hb' hy)

end Weaker

namespace Document

open Building

/-! ### What is read of an operation -/

structure ParameterAlike (v v' : Json) : Prop where
  name : v.getString? "name" = v'.getString? "name"
  place : v.getString? "in" = v'.getString? "in"
  schema : Option.Rel Schema.ReadAlike (schemaOf? v) (schemaOf? v')

/-- Media types with schemas that are read alike. -/
def ContentAlike : Assoc String Json → Assoc String Json → Prop :=
  Assoc.Alike fun v v' =>
    Schema.ReadAlike ((v.get? "schema").getD .null) ((v'.get? "schema").getD .null)

def BodyAlike (v v' : Json) : Prop :=
  ContentAlike ((v.getObject? "content").getD []) ((v'.getObject? "content").getD [])

section Operations

variable {root root' : Json} {shared shared' : List Json} {op op' : Json} {w : Arenas}

/-- Operations of two documents that are read alike. -/
structure OperationAlike (root root' : Json) (shared shared' : List Json) (op op' : Json) :
    Prop where
  parameters : ExceptAlike (Assoc.Alike ParameterAlike)
    (mergeParameters root shared (parametersOf op))
    (mergeParameters root' shared' (parametersOf op'))
  request : Option.Rel
    (fun v v' => ExceptAlike BodyAlike (Pointer.follow root v) (Pointer.follow root' v'))
    (op.get? "requestBody") (op'.get? "requestBody")
  response : Option.Rel
    (fun v v' => ExceptAlike BodyAlike (Pointer.follow root v) (Pointer.follow root' v'))
    ((op.get? "responses").bind (·.get? "200")) ((op'.get? "responses").bind (·.get? "200"))
  limit : op.get? "x-limit" = op'.get? "x-limit"

theorem agree_readParameter {v v' : Json} (h : ParameterAlike v v') (spot : Spot) (w : Arenas) :
    Agree w (readParameter spot v) (readParameter spot v') fun S => Parameter.Matches S := by
  unfold readParameter
  rw [h.name, h.place]
  split
  · exact .throw _ _
  · have hschema := h.schema
    dsimp only
    generalize ParameterPlace.ofName? _ = place
    generalize schemaOf? v = s, schemaOf? v' = s' at hschema
    cases place with
    | none => exact .throw _ _
    | some place =>
      cases hschema with
      | none => exact .throw _ _
      | some hs =>
        dsimp only
        rw [hs]
        exact Uniform.bind _ (Schema.uniform_classify _ _) fun _ hid => .pure fun t ht =>
          ⟨rfl, hid t ht⟩

theorem agree_readContent (location : String) {content content' : Assoc String Json}
    (h : ContentAlike content content') : ∀ w, Agree w (readContent location content)
      (readContent location content') fun S => Assoc.Alike S := by
  induction h with
  | nil => exact fun w => .pure fun _ _ => .nil
  | @cons p p' rest rest' hp _ ih =>
    obtain ⟨mediaType, entry⟩ := p
    obtain ⟨mediaType', entry'⟩ := p'
    obtain ⟨rfl, hentry⟩ := hp
    intro w
    rw [readContent, readContent, hentry]
    refine Uniform.bind _ (Schema.uniform_classify _ _) fun {u _ _} _ hid => ?_
    exact (ih u).bind fun hu hrest => .pure fun t ht =>
      .cons ⟨rfl, hid t (hu.trans ht)⟩ (hrest t ht)

theorem agree_readBody? (location : String) {v v' : Option Json} (h : Option.Rel
      (fun v v' => ExceptAlike BodyAlike (Pointer.follow root v) (Pointer.follow root' v')) v v')
    (w : Arenas) : Agree w (readBody? root location v) (readBody? root' location v')
      fun S => Option.Rel (Body.Matches S) := by
  cases h with
  | none => exact .pure fun _ _ => .none
  | some h =>
    refine (agree_ofExcept h).bind fun {u b b'} _ hb => Agree.map some some (?_ : Agree u
      (readBody location b) (readBody location b') fun S => Body.Matches S) .some
    exact (agree_readContent location hb.now u).bind fun _ hcontent => .pure hcontent

theorem uniform_readLimit? (spot : Spot) (v : Option Json) :
    Uniform (readLimit? spot v) fun _ => Eq := by
  cases v with
  | none => exact uniform_pure fun _ => rfl
  | some v =>
    rw [readLimit?]
    split
    · exact uniform_pure fun _ => rfl
    · exact fun _ => .throw _ _

theorem agree_readOperation (h : OperationAlike root root' shared shared' op op') (spot : Spot)
    (w : Arenas) :
    Agree w (readOperation root spot shared op) (readOperation root' spot shared' op')
      fun S => Operation.Matches S := by
  unfold readOperation
  refine (agree_ofExcept h.parameters).bind fun {w merged merged'} _ hmerged => ?_
  have hread : List.Forall₂ (fun p p' => ∀ w, Agree w (readParameter spot p.2)
      (readParameter spot p'.2) fun S => Parameter.Matches S) merged merged' :=
    List.Forall₂.imp (fun _ _ hp => agree_readParameter hp.2 spot) hmerged.now
  refine (agree_mapM hread w).bind fun {w _ _} _ hparameters => ?_
  refine (agree_readBody? _ h.request w).bind fun {w _ _} hw hrequest => ?_
  refine (agree_readBody? _ h.response w).bind fun {w _ _} hw' hresponse => ?_
  rw [h.limit]
  refine Uniform.bind _ (uniform_readLimit? spot _) fun hw'' _ => .pure fun t ht => ?_
  exact ⟨hparameters t (hw.trans (hw'.trans (hw''.trans ht))),
    hrequest t (hw'.trans (hw''.trans ht)), hresponse t (hw''.trans ht)⟩

/-! ### Paths -/

/-- Members of path items that are read alike. -/
inductive MemberAlike (root root' : Json) (shared shared' : List Json) :
    String × Json → String × Json → Prop
  | operation (key : String) {fields fields' : Assoc String Json}
      (hhas : Assoc.has fields "responses" = Assoc.has fields' "responses")
      (h : OperationAlike root root' shared shared' (.obj fields) (.obj fields')) :
      MemberAlike root root' shared shared' (key, .obj fields) (key, .obj fields')
  | other (key : String) {v : Json} (hv : v.asObject? = none) :
      MemberAlike root root' shared shared' (key, v) (key, v)
  | unnamed {key : String} (hkey : HttpMethod.ofName? key = none) (v v' : Json) :
      MemberAlike root root' shared shared' (key, v) (key, v')

def PathItemAlike (root root' : Json) (item item' : Json) : Prop :=
  Covers (MemberAlike root root' (parametersOf item) (parametersOf item'))
    (item.asObject?.getD []) (item'.asObject?.getD [])

theorem agree_readMember {m m' : String × Json}
    (h : MemberAlike root root' shared shared' m m') (path : String) (w : Arenas) :
    Agree w (readMember root path shared m) (readMember root' path shared' m')
      fun S => Option.Rel (Operation.Matches S) := by
  unfold readMember
  cases h with
  | operation key hhas h =>
    dsimp only
    generalize HttpMethod.ofName? key = method
    cases method with
    | none => exact .pure fun _ _ => .none
    | some method =>
      dsimp only
      rw [hhas]
      split
      · exact (agree_readOperation h _ w).map some some .some
      · exact .pure fun _ _ => .none
  | @other key v hv =>
    dsimp only
    generalize HttpMethod.ofName? key = method
    cases method with
    | none => exact .pure fun _ _ => .none
    | some method =>
      cases v with
      | obj fields => cases hv
      | null | bool | num | str | arr => exact .throw _ _
  | unnamed hkey v v' =>
    dsimp only
    rw [hkey]
    exact .pure fun _ _ => .none

theorem agree_readPathItem {item item' : Json} (h : PathItemAlike root root' item item')
    (path : String) (w : Arenas) :
    Agree w (readPathItem root path item) (readPathItem root' path item')
      fun S => Covers (Operation.Matches S) := by
  have hmembers : Covers (fun m m' => ∀ w, Agree w (readMember root path (parametersOf item) m)
      (readMember root' path (parametersOf item') m')
      fun S => Option.Rel (Operation.Matches S)) (item.asObject?.getD [])
      (item'.asObject?.getD []) :=
    h.imp fun _ _ hm => agree_readMember hm path
  unfold readPathItem
  exact (agree_mapM_of_covers hmembers w).bind fun _ hoperations => .pure fun t ht =>
    covers_filterMap_id (hoperations t ht)

/-- Paths whose items are read alike, once references are followed. -/
def PathsAlike (root root' : Json) : Prop :=
  Assoc.Alike
    (fun v v' => ExceptAlike (PathItemAlike root root') (Pointer.follow root v)
      (Pointer.follow root' v'))
    ((root.getObject? "paths").getD []) ((root'.getObject? "paths").getD [])

theorem agree_readPaths (h : PathsAlike root root') (w : Arenas) :
    Agree w (readPaths root) (readPaths root') fun S => Covers (Operation.Matches S) := by
  have hitems : List.Forall₂ (fun p p' => ∀ w,
      Agree w (Building.ofExcept (Pointer.follow root p.2) >>= readPathItem root p.1)
      (Building.ofExcept (Pointer.follow root' p'.2) >>= readPathItem root' p'.1)
      fun S => Covers (Operation.Matches S)) ((root.getObject? "paths").getD [])
      ((root'.getObject? "paths").getD []) := by
    refine List.Forall₂.imp (fun p p' hp w => ?_) h
    obtain ⟨path, v⟩ := p
    obtain ⟨path', v'⟩ := p'
    obtain ⟨rfl, hitem⟩ := hp
    exact (agree_ofExcept hitem).bind fun {w _ _} _ hitem => agree_readPathItem hitem.now path w
  unfold readPaths
  exact (agree_mapM hitems w).bind fun _ hoperations => .pure fun t ht =>
    covers_flatten (hoperations t ht)

end Operations

/-! ### Schemas -/

theorem readSchemas_eq_mapM (members : List (String × Json)) :
    readSchemas members = members.mapM fun p =>
      Schema.classify p.2 p.1 >>= fun id => pure (p.1, id) := by
  induction members with
  | nil => rfl
  | cons p rest ih =>
    rw [readSchemas, List.mapM_cons, ih, bind_assoc]
    simp only [pure_bind]

/-- The members of an object in another order declare similar schemas. -/
theorem agree_readSchemas {members members' : List (String × Json)}
    (h : members.Perm members') (w : Arenas) :
    Agree w (readSchemas members) (readSchemas members')
      fun S => Covers fun p p' => p.1 = p'.1 ∧ S p.2 p'.2 := by
  rw [readSchemas_eq_mapM, readSchemas_eq_mapM]
  refine agree_mapM_of_covers (covers_of_perm h fun p w => ?_) w
  exact Uniform.bind _ (Schema.uniform_classify _ _) fun _ hid => .pure fun t ht => ⟨rfl, hid t ht⟩

theorem keys_of_readSchemas {members : List (String × Json)} {schemas : Assoc String NodeId}
    {s t : Arena} (h : outcome (readSchemas members) s = (.ok schemas, t)) :
    Assoc.keys schemas = Assoc.keys members := by
  induction members generalizing schemas s t with
  | nil =>
    cases h
    rfl
  | cons p rest ih =>
    obtain ⟨name, v⟩ := p
    rw [readSchemas] at h
    obtain ⟨id, u, -, h⟩ := outcome_bind_eq_ok.1 h
    obtain ⟨schemas, u, hrest, h⟩ := outcome_bind_eq_ok.1 h
    cases h
    exact congrArg (name :: ·) (ih hrest)

/-! ### Documents -/

section Documents

variable {root root' : Json} {d d' : Document} {version : Version}

/-- The two steps of reading a document in the newer layout. -/
theorem steps_of_readLayout (h : readLayout version root = .ok d) :
    ∃ t, outcome (readSchemas (schemasOf root)) {} = (.ok d.schemas, t) ∧
      outcome (readPaths root) t = (.ok d.operations, d.arena) := by
  unfold readLayout at h
  dsimp only at h
  split at h
  · cases h
  · next schemas operations arena hr =>
    cases h
    obtain ⟨schemas, t, hschemas, hr⟩ := outcome_bind_eq_ok.1 hr
    obtain ⟨operations, u, hpaths, hr⟩ := outcome_bind_eq_ok.1 hr
    cases hr
    exact ⟨t, hschemas, hpaths⟩

theorem readLayout_of_steps {schemas : Assoc String NodeId} {operations : List Operation}
    {t arena : Arena} (hschemas : outcome (readSchemas (schemasOf root)) {} = (.ok schemas, t))
    (hpaths : outcome (readPaths root) t = (.ok operations, arena)) :
    ∃ d, readLayout version root = .ok d ∧ d.schemas = schemas ∧ d.operations = operations ∧
      d.arena = arena := by
  have hr : outcome (do
      let schemas ← readSchemas (schemasOf root)
      pure (schemas, ← readPaths root)) {} = (.ok (schemas, operations), arena) :=
    outcome_bind_eq_ok.2 ⟨schemas, t, hschemas,
      outcome_bind_eq_ok.2 ⟨operations, arena, hpaths, rfl⟩⟩
  unfold readLayout
  dsimp only
  unfold outcome at hr
  rw [hr]
  exact ⟨_, rfl, rfl, rfl, rfl⟩

/-- Documents in the newer layout that say the same, their named schemas in another order. -/
structure LayoutAlike (root root' : Json) : Prop where
  paths : PathsAlike root root'
  schemas : (schemasOf root).Perm (schemasOf root')
  distinct : (Assoc.keys (schemasOf root)).Nodup

/-- What is read of such documents: each schema and each operation of one is also in the other. -/
structure Reread (d d' : Document) : Prop where
  schemas : Covers (fun p p' => p.1 = p'.1 ∧ Arenas.Similar (d.arena, d'.arena) p.2 p'.2)
    d.schemas d'.schemas
  operations : Covers (Operation.Matches (Arenas.Similar (d.arena, d'.arena)))
    d.operations d'.operations
  distinct : (Assoc.keys d.schemas).Nodup
  distinct' : (Assoc.keys d'.schemas).Nodup

theorem reread_of_layoutAlike (h : LayoutAlike root root')
    (hd : readLayout version root = .ok d) :
    ∃ d', readLayout version root' = .ok d' ∧ Reread d d' := by
  obtain ⟨t, hschemas, hpaths⟩ := steps_of_readLayout hd
  rcases hschemas' : outcome (readSchemas (schemasOf root')) {} with ⟨e | schemas', t'⟩ <;>
    cases (agree_readSchemas h.schemas _).ends hschemas hschemas'
  next hlater hcovers =>
  rcases hpaths' : outcome (readPaths root') t' with ⟨e | operations', arena'⟩ <;>
    cases (agree_readPaths h.paths _).ends hpaths hpaths'
  next hlater hoperations =>
  obtain ⟨d', hd', rfl, rfl, rfl⟩ :=
    (readLayout_of_steps hschemas' hpaths' : ∃ d', readLayout version root' = .ok d' ∧ _)
  refine ⟨d', hd', hcovers _ hlater, hoperations.now, ?_, ?_⟩
  · rw [keys_of_readSchemas hschemas]
    exact h.distinct
  · rw [keys_of_readSchemas hschemas']
    exact (h.schemas.map Prod.fst).nodup_iff.1 h.distinct

/-- Nodes that say the same to the end and declare the same schemas. -/
def Paired (d d' : Document) (x x' : NodeId) : Prop :=
  Arenas.Similar (d.arena, d'.arena) x x' ∧
    ∀ name, Assoc.get? d.schemas name = some x ↔ Assoc.get? d'.schemas name = some x'

theorem Reread.paired (h : Reread d d') (hd : d.Forest) (hd' : d'.Forest)
    {p p' : String × NodeId} (hp : p ∈ d.schemas) (hp' : p' ∈ d'.schemas) (hname : p.1 = p'.1)
    (hsimilar : Arenas.Similar (d.arena, d'.arena) p.2 p'.2) : Paired d d' p.2 p'.2 := by
  have hn := Assoc.get?_of_mem h.distinct hp
  have hn' := Assoc.get?_of_mem h.distinct' hp'
  refine ⟨hsimilar, fun other => ⟨fun ho => ?_, fun ho => ?_⟩⟩
  · rw [hd.name_unique ho hn, hname]
    exact hn'
  · rw [hd'.name_unique ho hn', ← hname]
    exact hn

theorem Reread.named (h : Reread d d') (hd : d.Forest) (hd' : d'.Forest) (name : String) :
    Option.Rel (Paired d d') (Assoc.get? d.schemas name) (Assoc.get? d'.schemas name) := by
  cases hn : Assoc.get? d.schemas name with
  | some id =>
    have hmem := Assoc.mem_of_get? hn
    obtain ⟨p', hp', hname, hsimilar⟩ := h.schemas.1 _ hmem
    have hn' := Assoc.get?_of_mem h.distinct' hp'
    rw [← hname] at hn'
    rw [hn']
    exact .some (h.paired hd hd' hmem hp' hname hsimilar)
  | none =>
    cases hn' : Assoc.get? d'.schemas name with
    | none => exact .none
    | some id' =>
      obtain ⟨p, hp, hname, -⟩ := h.schemas.2 _ (Assoc.mem_of_get? hn')
      have hfound := Assoc.get?_of_mem h.distinct hp
      rw [hname, hn] at hfound
      cases hfound

section WellFormed

variable (hd : d.WellFormed) (hd' : d'.WellFormed)

include hd hd'

/-- The nodes of operations declare no schema, so similar ones are paired. -/
theorem paired_of_operation {o o' : Operation} (ho : o ∈ d.operations) (ho' : o' ∈ d'.operations) :
    ∀ x ∈ o.roots, ∀ x' ∈ o'.roots, Arenas.Similar (d.arena, d'.arena) x x' → Paired d d' x x' :=
  fun x hx x' hx' hsimilar => ⟨hsimilar, fun name =>
    ⟨fun hn => absurd hn ((hd.apart o ho x hx).1 name),
      fun hn' => absurd hn' ((hd'.apart o' ho' x' hx').1 name)⟩⟩

/-- Documents that were read of the same in another order are alike. -/
theorem Reread.alike (h : Reread d d') : d.Alike d' (Paired d d') where
  node {x x'} hx := hx.1.matches.imp fun c hc c' hc' hsimilar => ⟨hsimilar, fun name =>
    ⟨fun hn => absurd hc (hd.forest.root_not_child hn),
      fun hn' => absurd hc' (hd'.forest.root_not_child hn')⟩⟩
  root hx name := hx.2 name
  named := h.named hd.forest hd'.forest
  operation o ho := by
    obtain ⟨o', ho', hmatches⟩ := h.operations.1 o ho
    exact ⟨o', ho', hmatches.imp (paired_of_operation hd hd' ho ho')⟩
  operation' o' ho' := by
    obtain ⟨o, ho, hmatches⟩ := h.operations.2 o' ho'
    exact ⟨o, ho, hmatches.imp (paired_of_operation hd hd' ho ho')⟩

end WellFormed

end Documents

end Document

end TypedClient
