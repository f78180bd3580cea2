import TypedClient.Proofs.Document.Reading

/-! Documents of which exactly the same is read, errors included. It is enough that the parts of
their operations that are read are the same; so what they say elsewhere does not matter. -/

namespace TypedClient

namespace Document

open Json Building

variable {root root' v w : Json} {shared shared' own own' : List Json} {op op' : Json}

theorem mapM_congr_of_forall₂ {α β γ : Type} {f : α → Building γ} {g : β → Building γ}
    {xs : List α} {ys : List β} (h : List.Forall₂ (fun x y => f x = g y) xs ys) :
    xs.mapM f = ys.mapM g := by
  induction h with
  | nil => rfl
  | cons hx _ ih => rw [List.mapM_cons, List.mapM_cons, hx, ih]

theorem ofExcept_bind_congr {α β γ : Type} {R : α → β → Prop} {x : Except Failure α}
    {y : Except Failure β} (h : ExceptSame R x y) {f : α → Building γ} {g : β → Building γ}
    (hfg : ∀ {a b}, R a b → f a = g b) : ofExcept x >>= f = ofExcept y >>= g := by
  cases h with
  | error e => rfl
  | ok h => exact hfg h

/-! ### Parts of an operation -/

/-- Parameters of which the same is read. -/
structure ParameterSame (v w : Json) : Prop where
  name : v.getString? "name" = w.getString? "name"
  place : v.getString? "in" = w.getString? "in"
  required : v.getBool? "required" = w.getBool? "required"
  description : v.getString? "description" = w.getString? "description"
  schema : Option.Rel Schema.ReadAlike (schemaOf? v) (schemaOf? w)

/-- Bodies of which the same is read. -/
structure BodySame (v w : Json) : Prop where
  description : v.getString? "description" = w.getString? "description"
  content : ContentAlike ((v.getObject? "content").getD []) ((w.getObject? "content").getD [])

theorem readParameter_congr (h : ParameterSame v w) (spot : Spot) :
    readParameter spot v = readParameter spot w := by
  have hschema := h.schema
  unfold readParameter
  rw [h.name, h.place, h.required, h.description]
  generalize schemaOf? v = s, schemaOf? w = s' at hschema
  split
  · rfl
  · dsimp only
    generalize ParameterPlace.ofName? _ = place
    cases hschema with
    | none => cases place <;> rfl
    | some hs =>
      cases place with
      | none => rfl
      | some place => simp only [hs _]

theorem readContent_congr {content content' : Assoc String Json} (h : ContentAlike content content')
    (location : String) : readContent location content = readContent location content' := by
  induction h with
  | nil => rfl
  | @cons p p' _ _ hp _ ih =>
    obtain ⟨mediaType, entry⟩ := p
    obtain ⟨mediaType', entry'⟩ := p'
    obtain ⟨rfl, hentry⟩ := hp
    rw [readContent, readContent, hentry, ih]

/-- Bodies of two documents, references followed. -/
def BodiesSame (root root' : Json) : Option Json → Option Json → Prop :=
  Option.Rel fun v v' => ExceptSame BodySame (Pointer.follow root v) (Pointer.follow root' v')

theorem readBody?_congr {v v' : Option Json} (h : BodiesSame root root' v v')
    (location : String) : readBody? root location v = readBody? root' location v' := by
  cases h with
  | none => rfl
  | some h =>
    refine ofExcept_bind_congr h fun hbody => congrArg (some <$> ·) ?_
    rw [readBody, readBody, readContent_congr hbody.content, hbody.description]

/-- The texts of an operation. -/
def operationTexts : List String := ["operationId", "summary", "description"]

/-- Operations of two documents of which the same is read. -/
structure OperationSame (root root' : Json) (shared shared' : List Json) (op op' : Json) :
    Prop where
  parameters : ExceptSame (Assoc.Alike ParameterSame)
    (mergeParameters root shared (parametersOf op))
    (mergeParameters root' shared' (parametersOf op'))
  request : BodiesSame root root' (op.get? "requestBody") (op'.get? "requestBody")
  response : BodiesSame root root' ((op.get? "responses").bind (·.get? "200"))
    ((op'.get? "responses").bind (·.get? "200"))
  limit : ∀ spot, readLimit? spot (op.get? "x-limit") = readLimit? spot (op'.get? "x-limit")
  text : ∀ key ∈ operationTexts, op.getString? key = op'.getString? key
  tags : op.getArray? "tags" = op'.getArray? "tags"

theorem readOperation_congr (h : OperationSame root root' shared shared' op op') (spot : Spot) :
    readOperation root spot shared op = readOperation root' spot shared' op' := by
  unfold readOperation
  refine ofExcept_bind_congr h.parameters fun {merged merged'} hmerged => ?_
  have hparameters : merged.mapM (fun p => readParameter spot p.2) =
      merged'.mapM fun p => readParameter spot p.2 :=
    mapM_congr_of_forall₂ (List.Forall₂.imp (fun _ _ hp => readParameter_congr hp.2 spot) hmerged)
  rw [hparameters, readBody?_congr h.request, readBody?_congr h.response, h.limit, h.tags,
    h.text "operationId" (by decide), h.text "summary" (by decide),
    h.text "description" (by decide)]

/-! ### Paths -/

/-- Members of path items of which the same is read. -/
inductive MemberSame (root root' : Json) (shared shared' : List Json) :
    String × Json → String × Json → Prop
  | operation (key : String) {fields fields' : Assoc String Json}
      (hhas : Assoc.has fields "responses" = Assoc.has fields' "responses")
      (h : OperationSame root root' shared shared' (.obj fields) (.obj fields')) :
      MemberSame root root' shared shared' (key, .obj fields) (key, .obj fields')
  | other (key : String) {v : Json} (hv : v.asObject? = none) :
      MemberSame root root' shared shared' (key, v) (key, v)
  | unnamed {key : String} (hkey : HttpMethod.ofName? key = none) (v v' : Json) :
      MemberSame root root' shared shared' (key, v) (key, v')

def PathItemSame (root root' item item' : Json) : Prop :=
  List.Forall₂ (MemberSame root root' (parametersOf item) (parametersOf item'))
    (item.asObject?.getD []) (item'.asObject?.getD [])

theorem readMember_congr {m m' : String × Json} (h : MemberSame root root' shared shared' m m')
    (path : String) : readMember root path shared m = readMember root' path shared' m' := by
  unfold readMember
  cases h with
  | operation key hhas h => simp only [hhas, readOperation_congr h]
  | @other key v hv =>
    cases v with
    | obj => cases hv
    | null | bool | num | str | arr => rfl
  | unnamed hkey v v' => simp only [hkey]

theorem readPathItem_congr {item item' : Json} (h : PathItemSame root root' item item')
    (path : String) : readPathItem root path item = readPathItem root' path item' := by
  unfold readPathItem
  rw [mapM_congr_of_forall₂ (h.imp fun _ _ hm => readMember_congr hm path)]

/-! ### Documents -/

/-- Documents in the newer layout of which the same is read. -/
structure LayoutSame (root root' : Json) : Prop where
  paths : Assoc.Alike
    (fun v v' => ExceptSame (PathItemSame root root') (Pointer.follow root v)
      (Pointer.follow root' v'))
    ((root.getObject? "paths").getD []) ((root'.getObject? "paths").getD [])
  schemas : Assoc.Alike Schema.ReadAlike (schemasOf root) (schemasOf root')
  info : ∀ key ∈ ["title", "version", "description"], (root.get? "info").bind (·.getString? key) =
    (root'.get? "info").bind (·.getString? key)
  tags : root.getArray? "tags" = root'.getArray? "tags"

theorem readPaths_congr (h : LayoutSame root root') : readPaths root = readPaths root' := by
  unfold readPaths
  refine congrArg (· >>= _) (mapM_congr_of_forall₂ (List.Forall₂.imp (fun p p' hp => ?_) h.paths))
  obtain ⟨path, v⟩ := p
  obtain ⟨path', v'⟩ := p'
  obtain ⟨rfl, hitem⟩ := hp
  exact ofExcept_bind_congr hitem fun hitem => readPathItem_congr hitem path

theorem readSchemas_congr {schemas schemas' : Assoc String Json}
    (h : Assoc.Alike Schema.ReadAlike schemas schemas') :
    readSchemas schemas = readSchemas schemas' := by
  induction h with
  | nil => rfl
  | @cons p p' _ _ hp _ ih =>
    obtain ⟨name, v⟩ := p
    obtain ⟨name', v'⟩ := p'
    obtain ⟨rfl, hv⟩ := hp
    rw [readSchemas, readSchemas, hv, ih]

theorem readLayout_congr (h : LayoutSame root root') (version : Version) :
    readLayout version root = readLayout version root' := by
  unfold readLayout
  simp only [readPaths_congr h, readSchemas_congr h.schemas, h.info "title" (by decide),
    h.info "version" (by decide), h.info "description" (by decide), h.tags]

end Document

end TypedClient
