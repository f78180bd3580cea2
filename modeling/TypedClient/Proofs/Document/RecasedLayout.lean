import TypedClient.Proofs.Document.Recased
import TypedClient.Proofs.Document.Unread
import TypedClient.Proofs.Schema.Located

/-! Reading documents in the newer layout whose media types are written in other letters. A schema
under a media type is read at a location that names it, so the two readings may tell an error
differently; where both succeed they make the same nodes, and the operations differ in the media
types of their bodies only. -/

namespace TypedClient

namespace Document

open Json Building

variable {kept : String → String → Prop} {root root' v w : Json}
variable {shared shared' own own' : List Json} {op op' : Json}

/-! ### Bodies -/

/-- Contents with schemas of which the same is read, under media types in other letters. -/
def ContentRecased (kept : String → String → Prop) : Assoc String Json → Assoc String Json → Prop :=
  List.Forall₂ fun p q => MediaType.Recased kept p.1 q.1 ∧
    Schema.ReadAlike ((p.2.get? "schema").getD .null) ((q.2.get? "schema").getD .null)

def BodyRecased (kept : String → String → Prop) (v w : Json) : Prop :=
  ContentRecased kept ((v.getObject? "content").getD []) ((w.getObject? "content").getD [])

/-- Bodies of two documents, references followed. -/
def BodiesRecased (kept : String → String → Prop) (root root' : Json) :
    Option Json → Option Json → Prop :=
  Option.Rel fun v w => Jointly (BodyRecased kept) (Pointer.follow root v) (Pointer.follow root' w)

theorem coincide_readContent (location : String) {content content' : Assoc String Json}
    (h : ContentRecased kept content content') :
    Coincide (List.Forall₂ fun p q => MediaType.Recased kept p.1 q.1 ∧ p.2 = q.2)
      (readContent location content) (readContent location content') := by
  induction h with
  | nil => exact .pure .nil
  | @cons p q _ _ hpq _ ih =>
    obtain ⟨mediaType, entry⟩ := p
    obtain ⟨mediaType', entry'⟩ := q
    rw [readContent, readContent]
    -- the location of a schema has its media type in it
    refine (hpq.2.coincide _ _).next fun id => ?_
    exact ih.bind fun hrest => .pure (.cons ⟨hpq.1, rfl⟩ hrest)

theorem coincide_readBody? (location : String) {b b' : Option Json}
    (h : BodiesRecased kept root root' b b') :
    Coincide (Option.Rel (Body.Respelled (MediaType.Recased kept)))
      (readBody? root location b) (readBody? root' location b') := by
  cases h with
  | none => exact .pure .none
  | some h =>
    refine (Coincide.ofExcept h).bind fun {v w} hbody => Coincide.map (R := Body.Respelled _)
      (?_ : Coincide _ (readBody location v) (readBody location w)) .some
    exact (coincide_readContent location hbody).bind fun hcontent => .pure hcontent

/-! ### Operations -/

/-- Operations of two documents of which the same is read, but for media types. -/
structure OperationRecased (kept : String → String → Prop) (root root' : Json)
    (shared shared' : List Json) (op op' : Json) : Prop where
  parameters : Jointly (Assoc.Alike ParameterSame)
    (mergeParameters root shared (parametersOf op))
    (mergeParameters root' shared' (parametersOf op'))
  request : BodiesRecased kept root root' (op.get? "requestBody") (op'.get? "requestBody")
  response : BodiesRecased kept root root' ((op.get? "responses").bind (·.get? "200"))
    ((op'.get? "responses").bind (·.get? "200"))
  limit : ∀ spot, readLimit? spot (op.get? "x-limit") = readLimit? spot (op'.get? "x-limit")
  text : ∀ key ∈ operationTexts, op.getString? key = op'.getString? key
  tags : op.getArray? "tags" = op'.getArray? "tags"

theorem coincide_readOperation (h : OperationRecased kept root root' shared shared' op op')
    (spot : Spot) : Coincide (Operation.Respelled (MediaType.Recased kept))
      (readOperation root spot shared op) (readOperation root' spot shared' op') := by
  unfold readOperation
  refine (Coincide.ofExcept h.parameters).bind fun {merged merged'} hmerged => ?_
  have hparameters : merged.mapM (fun p => readParameter spot p.2) =
      merged'.mapM fun p => readParameter spot p.2 :=
    mapM_congr_of_forall₂ (List.Forall₂.imp (fun _ _ hp => readParameter_congr hp.2 spot) hmerged)
  rw [hparameters, h.limit, h.tags, h.text "operationId" (by decide), h.text "summary" (by decide),
    h.text "description" (by decide)]
  refine (Coincide.refl _).next fun parameters => ?_
  refine (coincide_readBody? _ h.request).bind fun hrequest => ?_
  refine (coincide_readBody? _ h.response).bind fun hresponse => ?_
  exact (Coincide.refl _).next fun limit => .pure ⟨hrequest, hresponse, rfl⟩

/-- Members of path items of which the same is read, but for media types. -/
inductive MemberRecased (kept : String → String → Prop) (root root' : Json)
    (shared shared' : List Json) : String × Json → String × Json → Prop
  | operation (key : String) {fields fields' : Assoc String Json}
      (hhas : Assoc.has fields "responses" = Assoc.has fields' "responses")
      (h : OperationRecased kept root root' shared shared' (.obj fields) (.obj fields')) :
      MemberRecased kept root root' shared shared' (key, .obj fields) (key, .obj fields')
  | other (key : String) {v w : Json} (hv : v.asObject? = none) (hw : w.asObject? = none) :
      MemberRecased kept root root' shared shared' (key, v) (key, w)
  | unnamed {key key' : String} (hkey : HttpMethod.ofName? key = none)
      (hkey' : HttpMethod.ofName? key' = none) (v w : Json) :
      MemberRecased kept root root' shared shared' (key, v) (key', w)

def PathItemRecased (kept : String → String → Prop) (root root' item item' : Json) : Prop :=
  List.Forall₂ (MemberRecased kept root root' (parametersOf item) (parametersOf item'))
    (item.asObject?.getD []) (item'.asObject?.getD [])

theorem coincide_readMember {m m' : String × Json}
    (h : MemberRecased kept root root' shared shared' m m') (path : String) :
    Coincide (Option.Rel (Operation.Respelled (MediaType.Recased kept)))
      (readMember root path shared m) (readMember root' path shared' m') := by
  unfold readMember
  cases h with
  | operation key hhas h =>
    dsimp only
    cases HttpMethod.ofName? key with
    | none => exact .pure .none
    | some method =>
      dsimp only
      rw [hhas]
      split
      · exact (coincide_readOperation h _).map .some
      · exact .pure .none
  | @other key v w hv hw =>
    dsimp only
    cases HttpMethod.ofName? key with
    | none => exact .pure .none
    | some method =>
      cases v with
      | obj fields => cases hv
      | null | bool | num | str | arr => exact .throw_left _ _
  | unnamed hkey hkey' =>
    simp only [hkey, hkey']
    exact .pure .none

theorem coincide_readPathItem {item item' : Json}
    (h : PathItemRecased kept root root' item item') (path : String) :
    Coincide (List.Forall₂ (Operation.Respelled (MediaType.Recased kept)))
      (readPathItem root path item) (readPathItem root' path item') := by
  unfold readPathItem
  refine (Coincide.mapM (h.imp fun _ _ hm => coincide_readMember hm path)).bind fun hread =>
    .pure ?_
  exact List.rel_filterMap (fun _ _ h => h) hread

/-! ### Documents -/

/-- Documents in the newer layout of which the same is read, but for media types. -/
structure LayoutRecased (kept : String → String → Prop) (root root' : Json) : Prop where
  paths : Assoc.Alike
    (fun v w => Jointly (PathItemRecased kept root root') (Pointer.follow root v)
      (Pointer.follow root' w))
    ((root.getObject? "paths").getD []) ((root'.getObject? "paths").getD [])
  schemas : Assoc.Alike Schema.ReadAlike (schemasOf root) (schemasOf root')
  info : ∀ key ∈ ["title", "version", "description"], (root.get? "info").bind (·.getString? key) =
    (root'.get? "info").bind (·.getString? key)
  tags : root.getArray? "tags" = root'.getArray? "tags"

theorem coincide_readPaths (h : LayoutRecased kept root root') :
    Coincide (List.Forall₂ (Operation.Respelled (MediaType.Recased kept)))
      (readPaths root) (readPaths root') := by
  unfold readPaths
  refine (Coincide.mapM (T := List.Forall₂ (Operation.Respelled (MediaType.Recased kept)))
    (List.Forall₂.imp (fun p q hpq => ?_) h.paths)).bind fun hread => .pure (List.rel_flatten hread)
  obtain ⟨path, v⟩ := p
  obtain ⟨path', w⟩ := q
  obtain ⟨rfl, hitem⟩ := hpq
  exact (Coincide.ofExcept hitem).bind fun hitem => coincide_readPathItem hitem path

/-- The second document is the first one with other media types in its bodies. -/
structure Respelled (R : String → String → Prop) (d d' : Document) : Prop where
  operations : List.Forall₂ (Operation.Respelled R) d.operations d'.operations
  rest : d' = { d with operations := d'.operations }

theorem eq_of_readLayout {version : Version} {d : Document} (h : readLayout version root = .ok d) :
    d = {
      version
      title := (root.get? "info").bind (·.getString? "title")
      revision := (root.get? "info").bind (·.getString? "version")
      description := (root.get? "info").bind (·.getString? "description")
      arena := d.arena, schemas := d.schemas, operations := d.operations
      tags := ((root.getArray? "tags").getD []).filterMap readTag? } := by
  unfold readLayout at h
  dsimp only at h
  split at h
  · cases h
  · cases h
    rfl

theorem readLayout_recased (h : LayoutRecased kept root root') (version : Version) :
    Jointly (Respelled (MediaType.Recased kept)) (readLayout version root)
      (readLayout version root') := by
  intro d d' hd hd'
  obtain ⟨t, hschemas, hpaths⟩ := steps_of_readLayout hd
  obtain ⟨t', hschemas', hpaths'⟩ := steps_of_readLayout hd'
  rw [← readSchemas_congr h.schemas, hschemas] at hschemas'
  obtain ⟨hsame, rfl⟩ := Prod.mk.inj hschemas'
  obtain ⟨hoperations, harena⟩ := coincide_readPaths h t _ _ _ _ hpaths hpaths'
  refine ⟨hoperations, ?_⟩
  rw [eq_of_readLayout hd', eq_of_readLayout hd]
  simp only [harena, Except.ok.inj hsame, h.info "title" (by decide), h.info "version" (by decide),
    h.info "description" (by decide), h.tags]

/-! ### Parts of a document -/

theorem schema_landed (h : Landed kept v w) :
    Schema.ReadAlike ((v.get? "schema").getD .null) ((w.get? "schema").getD .null) := by
  have hget := h.get? (show '/' ∉ "schema".toList by decide)
  generalize v.get? "schema" = u, w.get? "schema" = u' at hget
  cases hget with
  | none => exact .refl _
  | some hu => exact (Landed.value hu).readAlike

theorem content_landed (h : Landed kept v w) :
    RecasedMembers kept "content" ((v.getObject? "content").getD [])
      ((w.getObject? "content").getD []) :=
  h.getObject? (by decide)

theorem ParameterSame.of_landed (h : Landed kept v w) : ParameterSame v w where
  name := h.getString? (by decide)
  place := h.getString? (by decide)
  required := h.getBool? (by decide)
  description := h.getString? (by decide)
  schema := by
    have hget := h.get? (show '/' ∉ "schema".toList by decide)
    have hcontent := content_landed h
    unfold schemaOf?
    generalize v.get? "schema" = u, w.get? "schema" = u' at hget
    generalize (v.getObject? "content").getD [] = content,
      (w.getObject? "content").getD [] = content' at hcontent
    cases hget with
    | some hu => exact .some ((Landed.value hu).readAlike)
    | none =>
      cases hcontent with
      | nil => exact .none
      | cons hp _ =>
        exact rel_imp ((Landed.value hp.2).get? (by decide)) fun _ _ _ _ hu =>
          (Landed.value hu).readAlike

theorem BodyRecased.of_landed (h : Landed kept v w) : BodyRecased kept v w :=
  (content_landed h).imp fun _ _ hp => ⟨hp.1.mediaType, schema_landed (.value hp.2)⟩

/-- No field of a limit is an object or a list. -/
theorem set_recased {key : String} (h : Recased kept key v w) (r : LimitedResource) :
    r.set key v = r.set key w := by
  obtain rfl | ⟨_, _, rfl, rfl, -⟩ | ⟨-, _, _, rfl, rfl⟩ := h.shape <;> rfl

theorem limit_recased (h : Recased kept "x-limit" v w) :
    LimitedResource.ofJson v = LimitedResource.ofJson w := by
  have hfields : ∀ {fields fields' : List (String × Json)},
      RecasedMembers kept "x-limit" fields fields' →
      ∀ r : LimitedResource, fields.foldlM (fun r m => r.set m.1 m.2) r =
        fields'.foldlM (fun r m => r.set m.1 m.2) r := by
    intro fields fields' h
    induction h with
    | nil => exact fun _ => rfl
    | @cons p q _ _ hpq _ ih =>
      intro r
      have hkey := hpq.1.resolve_right fun hkey => absurd hkey.1 (by decide)
      rw [List.foldlM_cons, List.foldlM_cons, set_recased hpq.2, hkey]
      exact congrArg (_ >>= ·) (funext ih)
  obtain rfl | ⟨fields, fields', rfl, rfl, hmembers⟩ | ⟨hkey, -⟩ := h.shape
  · rfl
  · exact hfields hmembers {}
  · exact absurd hkey (by decide)

theorem readLimit?_recased {u u' : Option Json} (h : Option.Rel (Recased kept "x-limit") u u')
    (spot : Spot) : readLimit? spot u = readLimit? spot u' := by
  cases h with
  | none => rfl
  | some hu => rw [readLimit?, readLimit?, limit_recased hu]

theorem parametersOf_landed (h : Landed kept v w) :
    List.Forall₂ (Landed kept) (parametersOf v) (parametersOf w) := by
  have hsame : ∀ vs : List Json, List.Forall₂ (Landed kept) vs vs := fun vs =>
    List.forall₂_same.2 fun v _ => .value (.same "" v)
  have hget := h.get? (show '/' ∉ "parameters".toList by decide)
  unfold parametersOf Json.getArray?
  generalize v.get? "parameters" = u, w.get? "parameters" = u' at hget
  cases hget with
  | none => exact .nil
  | some hu =>
    rw [Option.bind_some, Option.bind_some]
    generalize hkey : "parameters" = key at hu
    cases hu with
    | same => exact hsame _
    | object => exact .nil
    | parameters h => exact h.imp fun _ _ hitem => .value hitem
    | mediaTypes _ _ h => exact h.imp fun _ _ => EntryRecased.landed

theorem mergeParameters_landed (h : Landed kept root root')
    (hshared : List.Forall₂ (Landed kept) shared shared')
    (hown : List.Forall₂ (Landed kept) own own') :
    Jointly (Assoc.Alike (Landed kept)) (mergeParameters root shared own)
      (mergeParameters root' shared' own') := by
  refine foldlM_jointly (List.rel_append hshared hown) .nil fun hm hu =>
    (follow_landed h hu).map fun {a b} hab => ?_
  rw [parameterKey, parameterKey, hab.getString? (by decide), hab.getString? (by decide)]
  exact Assoc.Alike.put hm _ hab

/-! ### The newer layout -/

theorem ofName?_of_slash {key : String} (hkey : '/' ∈ key.toList) :
    HttpMethod.ofName? key = none := by
  refine List.find?_eq_none.2 fun m _ hm => ?_
  have hslash := (Text.mem_slash_of_sameLetters hm).2 hkey
  cases m <;> exact absurd hslash (by decide)

section Newer

variable (h : Landed kept root root')

include h

theorem bodiesRecased_of_rel {R : Json → Json → Prop} (hR : ∀ {v w}, R v w → Landed kept v w)
    {u u' : Option Json} (hu : Option.Rel R u u') : BodiesRecased kept root root' u u' :=
  rel_imp hu fun _ _ _ _ hu => (follow_landed h (hR hu)).imp fun _ _ => .of_landed

theorem operationRecased_of_landed (hshared : List.Forall₂ (Landed kept) shared shared')
    (hv : Landed kept v w) : OperationRecased kept root root' shared shared' v w where
  parameters := (mergeParameters_landed h hshared (parametersOf_landed hv)).imp fun _ _ hm =>
    hm.imp fun _ _ => .of_landed
  request := bodiesRecased_of_rel h .value (hv.get? (by decide))
  response := by
    have hresponses := hv.get? (show '/' ∉ "responses".toList by decide)
    generalize v.get? "responses" = u, w.get? "responses" = u' at hresponses
    cases hresponses with
    | none => exact .none
    | some hu => exact bodiesRecased_of_rel h .value ((Landed.value hu).get? (by decide))
  limit spot := readLimit?_recased (hv.get? (by decide)) spot
  text key hkey := by
    have hall : ∀ key ∈ operationTexts, '/' ∉ key.toList := by decide
    exact hv.getString? (hall key hkey)
  tags := hv.getArray? (by decide) (by decide)

theorem memberRecased_of_recased (hshared : List.Forall₂ (Landed kept) shared shared')
    {under : String} {p q : String × Json} (hkey : KeyRecased kept under p.1 q.1)
    (hp : Recased kept p.1 p.2 q.2) : MemberRecased kept root root' shared shared' p q := by
  obtain ⟨key, v⟩ := p
  obtain ⟨key', w⟩ := q
  by_cases hne : key = key'
  · cases hne
    have hsame := operationRecased_of_landed h hshared (.value hp)
    have hhas := (Landed.value hp).isSome_get? (show '/' ∉ "responses".toList by decide)
    obtain ⟨_, _, _, rfl, rfl, -⟩ | ⟨hv, hw⟩ := (Landed.value hp).objects
    · exact .operation key hhas hsame
    · exact .other key hv hw
  · obtain ⟨-, hslash, hslash', -⟩ := hkey.slash hne
    exact .unnamed (ofName?_of_slash hslash) (ofName?_of_slash hslash') v w

theorem pathItemRecased_of_landed (hv : Landed kept v w) : PathItemRecased kept root root' v w := by
  obtain ⟨under, hmembers⟩ := hv.members
  exact hmembers.imp fun _ _ hp =>
    memberRecased_of_recased h (parametersOf_landed hv) hp.1 hp.2

theorem schemasOf_landed : Assoc.Alike Schema.ReadAlike (schemasOf root) (schemasOf root') := by
  have hcomponents := h.get? (show '/' ∉ "components".toList by decide)
  unfold schemasOf
  generalize root.get? "components" = u, root'.get? "components" = u' at hcomponents
  cases hcomponents with
  | none => exact .nil
  | some hu =>
    have hschemas := (Landed.value hu).getObject? (show '/' ∉ "schemas".toList by decide)
    exact (hschemas.alike (by decide)).imp fun _ _ => Landed.readAlike

theorem layoutRecased_of_landed : LayoutRecased kept root root' where
  paths := ((h.getObject? (by decide)).alike (by decide)).imp fun _ _ hv =>
    (follow_landed h hv).imp fun _ _ => pathItemRecased_of_landed h
  schemas := schemasOf_landed h
  info key hkey := by
    have hall : ∀ key ∈ ["title", "version", "description"], '/' ∉ key.toList := by decide
    exact bind_eq_of_rel (h.get? (by decide)) fun hu =>
      (Landed.value hu).getString? (hall key hkey)
  tags := h.getArray? (by decide) (by decide)

end Newer

end Document

end TypedClient
