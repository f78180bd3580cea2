import TypedClient.Proofs.Document.Layouts

/-! Documents whose named schemas stand in another order, in the older layout. Upgraded, they are
documents of the newer layout that say the same in another order: no reference is left in what they
have under paths, and its schemas are read alike. -/

namespace TypedClient

namespace Pointer

theorem follow_of_no_reference (root : Json) {v : Json} (h : v.get? "$ref" = none) :
    follow root v = .ok v := by
  show followWithin root (31 + 1) v = _
  rw [followWithin, reference?, Json.getString?, h]
  rfl

end Pointer

namespace Document.Upgrade

open Json

variable {root root' v v' : Json}

/-! ### Members that are picked -/

theorem get?_pick (keys : List String) (v : Json) (key : String) :
    Assoc.get? (pick keys v) key = if key ∈ keys then v.get? key else none := by
  induction keys with
  | nil => rfl
  | cons k keys ih =>
    unfold pick at ih ⊢
    rw [List.filterMap_cons]
    by_cases hk : k = key
    · subst hk
      rw [if_pos List.mem_cons_self]
      cases hv : v.get? k with
      | some u => simp [Assoc.get?]
      | none =>
        simp only [Option.map_none]
        rw [ih, hv, ite_self]
    · have hmem : key ∈ k :: keys ↔ key ∈ keys := by
        simp [List.mem_cons, Ne.symm hk]
      simp only [hmem]
      cases v.get? k with
      | none => exact ih
      | some u =>
        simp only [Option.map_some]
        rw [Assoc.get?, if_neg hk, ih]

theorem pick_kin (h : Kin v v') {keys : List String} (hkeys : ∀ key ∈ keys, key ∉ layoutKeys) :
    pick keys v = pick keys v' := by
  unfold pick
  refine List.filterMap_congr fun key hkey => ?_
  rw [h.get?_eq (hkeys key hkey)]

/-! ### Parameters -/

theorem objects_of_reordered {path : List String} (h : Reordered path v v') :
    ∃ fields fields', v = .obj fields ∧ v' = .obj fields' := by
  cases h <;> exact ⟨_, _, rfl, rfl⟩

theorem parameterSchema_kin (h : Kin v v') :
    Schema.ReadAlike (parameterSchema v) (parameterSchema v') := by
  have hget : ∀ {key}, key ∉ layoutKeys → v.get? key = v'.get? key := fun hkey => h.get?_eq hkey
  rcases h with rfl | ⟨path, -, h⟩
  · exact .refl _
  · obtain ⟨fields, fields', rfl, rfl⟩ := objects_of_reordered h
    have hschema : Assoc.get? fields "schema" = Assoc.get? fields' "schema" := hget (by decide)
    unfold parameterSchema
    dsimp only
    rw [hschema]
    split
    · exact .refl _
    · refine Schema.SameKeywords.readAlike (.of_get? fun key hkey => ?_)
      have hkey : key ∉ layoutKeys := by
        have hall : ∀ key ∈ "properties" :: Schema.keywords, key ∉ layoutKeys := by decide
        exact hall key hkey
      rw [Assoc.get?_filter _ (fun key => !parameterKeywords.contains key),
        Assoc.get?_filter _ (fun key => !parameterKeywords.contains key)]
      have hsame : Assoc.get? fields key = Assoc.get? fields' key := hget hkey
      rw [hsame]

theorem get?_upgradeParameter (v : Json) (key : String) :
    (upgradeParameter v).get? key = if "schema" = key then some (parameterSchema v)
      else if key ∈ ["name", "in", "required", "description"] then v.get? key else none := by
  show Assoc.get? (Assoc.put _ _ _) key = _
  rw [Assoc.get?_put, get?_pick]

/-- An upgraded parameter keeps what is not about its schema. -/
theorem get?_upgradeParameter_of_mem {key : String}
    (hkey : key ∈ ["name", "in", "required", "description"]) (v : Json) :
    (upgradeParameter v).get? key = v.get? key := by
  rw [get?_upgradeParameter, if_pos hkey, if_neg]
  rintro rfl
  exact absurd hkey (by decide)

theorem schemaOf?_upgradeParameter (v : Json) :
    schemaOf? (upgradeParameter v) = some (parameterSchema v) := by
  rw [schemaOf?, get?_upgradeParameter, if_pos rfl]

theorem upgradeParameter_alike (h : Kin v v') :
    ParameterAlike (upgradeParameter v) (upgradeParameter v') := by
  refine ⟨?_, ?_, ?_⟩
  · rw [Json.getString?, Json.getString?, get?_upgradeParameter_of_mem (by decide),
      get?_upgradeParameter_of_mem (by decide)]
    exact h.getString? (by decide)
  · rw [Json.getString?, Json.getString?, get?_upgradeParameter_of_mem (by decide),
      get?_upgradeParameter_of_mem (by decide)]
    exact h.getString? (by decide)
  · rw [schemaOf?_upgradeParameter, schemaOf?_upgradeParameter]
    exact .some (parameterSchema_kin h)

theorem follow_upgradeParameter (root v : Json) :
    Pointer.follow root (upgradeParameter v) = .ok (upgradeParameter v) := by
  refine Pointer.follow_of_no_reference root ?_
  rw [get?_upgradeParameter, if_neg (by decide), if_neg (by decide)]

/-! ### Requests -/

theorem getLast?_of_forall₂ {α β : Type} {R : α → β → Prop} {xs : List α} {ys : List β}
    (h : List.Forall₂ R xs ys) : Option.Rel R xs.getLast? ys.getLast? := by
  induction h with
  | nil => exact .none
  | cons hx hrest ih =>
    cases hrest with
    | nil => exact .some hx
    | cons => simpa only [List.getLast?_cons_cons] using ih

theorem bodyRequest_kin (types : List String) (h : Kin v v') :
    bodyRequest types v = bodyRequest types v' := by
  rw [bodyRequest, bodyRequest, h.get?_eq (by decide), pick_kin h (by decide)]

theorem reference_bodyRequest (types : List String) (v : Json) :
    (bodyRequest types v).get? "$ref" = none := by
  show Assoc.get? (_ ++ _) _ = none
  rw [Assoc.get?_append, get?_pick, if_neg (by decide)]
  rfl

theorem get?_of_object3 {a b c : String} {x y z : Json} (key : String) :
    Assoc.get? [(a, x), (b, y), (c, z)] key = if a = key then some x else if b = key then some y
      else if c = key then some z else none := rfl

/-- Form fields of which the same is read. -/
structure FieldAlike (v v' : Json) : Prop where
  required : v.getBool? "required" = v'.getBool? "required"
  schema : Schema.ReadAlike (parameterSchema v) (parameterSchema v')

theorem FieldAlike.of_kin (h : Kin v v') : FieldAlike v v' where
  required := by rw [Json.getBool?, Json.getBool?, h.get?_eq (by decide)]
  schema := parameterSchema_kin h

theorem formRequest_alike {fields fields' : Assoc (String × String) Json}
    (h : Assoc.Alike FieldAlike fields fields') :
    BodyAlike (.obj [("content", formRequest fields)])
      (.obj [("content", formRequest fields')]) := by
  have hproperties : Assoc.Alike Schema.ReadAlike
      (Assoc.ofPairs (fields.map fun p => (p.1.1, parameterSchema p.2)))
      (Assoc.ofPairs (fields'.map fun p => (p.1.1, parameterSchema p.2))) := by
    refine Assoc.Alike.putAll .nil ?_
    unfold Assoc.Alike
    rw [List.forall₂_map_left_iff, List.forall₂_map_right_iff]
    refine List.Forall₂.imp (fun p p' hp => ?_) h
    have hname : p.1.1 = p'.1.1 := by rw [hp.1]
    exact ⟨hname, hp.2.schema⟩
  have hrequired : ((fields.filter fun p => (p.2.getBool? "required").getD false).map
        fun p => Json.str p.1.1) =
      (fields'.filter fun p => (p.2.getBool? "required").getD false).map
        fun p => Json.str p.1.1 := by
    refine map_eq_of_forall₂ (filter_of_forall₂ h fun p p' hp => ?_) fun p p' hp => ?_
    · rw [hp.2.required]
    · rw [hp.1]
  refine .cons ⟨rfl, ?_⟩ .nil
  refine Schema.SameKeywords.readAlike ⟨fun key hkey => ?_, rfl, fun location => ?_⟩
  · have hne : "properties" ≠ key := by rintro rfl; exact absurd hkey (by decide)
    rw [get?_of_object3, get?_of_object3, if_neg hne, if_neg hne, hrequired]
    exact rel_refl .same _
  · exact Schema.classifyMembers_congr hproperties location

/-- Related parameters are upgraded to related requests, none of them a reference. -/
theorem request?_rel {R Q : Json → Json → Prop} {types types' : List String}
    (hbody : ∀ v v', R v v' → Q (bodyRequest types v) (bodyRequest types' v'))
    (hform : ∀ fields fields' : Assoc (String × String) Json, Assoc.Alike R fields fields' →
      Q (.obj [("content", formRequest fields)]) (.obj [("content", formRequest fields')]))
    {merged merged' : Assoc (String × String) Json} (h : Assoc.Alike R merged merged') :
    Option.Rel (fun v v' => Q v v' ∧ v.get? "$ref" = none ∧ v'.get? "$ref" = none)
      (request? types merged) (request? types' merged') := by
  have hbodies := getLast?_of_forall₂ (filter_of_forall₂ (p := isBody) (q := isBody) h
    fun p p' hp => by rw [isBody, isBody, hp.1])
  have hforms := filter_of_forall₂ (p := isForm) (q := isForm) h
    fun p p' hp => by rw [isForm, isForm, hp.1]
  unfold request?
  generalize (merged.filter isBody).getLast? = body, (merged'.filter isBody).getLast? = body'
    at hbodies
  cases hbodies with
  | some hp =>
    exact .some ⟨hbody _ _ hp.2, reference_bodyRequest _ _, reference_bodyRequest _ _⟩
  | none =>
    dsimp only
    generalize merged.filter isForm = fields, merged'.filter isForm = fields' at hforms
    cases hforms with
    | nil => exact .none
    | cons hp hrest => exact .some ⟨hform _ _ (.cons hp hrest), rfl, rfl⟩

theorem request?_alike {merged merged' : Assoc (String × String) Json}
    (h : Assoc.Alike Kin merged merged') (types : List String) (r r' : Json) : Option.Rel
      (fun v v' => ExceptAlike BodyAlike (Pointer.follow r v) (Pointer.follow r' v'))
      (request? types merged) (request? types merged') := by
  refine rel_imp (request?_rel (Q := BodyAlike) (fun v v' hv => ?_) (fun _ _ hfields => ?_) h)
    fun v _ v' _ hv => ?_
  · rw [bodyRequest_kin types hv]
    exact .of_kin (.refl _)
  · exact formRequest_alike (hfields.imp fun _ _ => .of_kin)
  · rw [Pointer.follow_of_no_reference r hv.2.1, Pointer.follow_of_no_reference r' hv.2.2]
    exact .ok hv.1

/-! ### Responses -/

theorem upgradeResponse_kin (types : List String) (h : Kin v v') :
    upgradeResponse types v = upgradeResponse types v' := by
  rw [upgradeResponse, upgradeResponse, pick_kin h (by decide), h.get?_eq (by decide)]

theorem reference_upgradeResponse (types : List String) (v : Json) :
    (upgradeResponse types v).get? "$ref" = none := by
  show Assoc.get? (_ ++ _) _ = none
  rw [Assoc.get?_append, get?_pick, if_neg (by decide)]
  split <;> rfl

/-- The same responses, none of them a reference any more. -/
theorem upgradeResponses_kin (h : Kin root root') (types : List String) (op : Json) :
    ExceptAlike (fun responses responses' => responses = responses' ∧
        ∀ p ∈ responses, p.2.get? "$ref" = none)
      (upgradeResponses root types op) (upgradeResponses root' types op) := by
  have hall : ExceptAlike (List.Forall₂ fun p p' => p = p' ∧ p.2.get? "$ref" = none)
      (upgradeResponses root types op) (upgradeResponses root' types op) := by
    refine mapM_alike (List.forall₂_same.2 fun p _ => ?_)
    exact (Pointer.follow_kin h (.refl p.2)).bind fun hv => .ok
      ⟨congrArg (Prod.mk p.1) (upgradeResponse_kin types hv), reference_upgradeResponse types _⟩
  refine hall.imp fun responses responses' hsame => ⟨?_, fun p hp => ?_⟩
  · rw [← List.forall₂_eq_eq_eq]
    exact hsame.imp fun _ _ hp => hp.1
  · obtain ⟨p', -, -, hreference⟩ := exists_of_mem_left hsame hp
    exact hreference

/-! ### Operations -/

/-- What is found in an upgraded operation. -/
theorem get?_upgraded (op parameters responses : Json) (request : Option Json) (key : String) :
    (Json.obj (pick copiedKeywords op ++ [("parameters", parameters)] ++
      (request.toList.map fun v => ("requestBody", v)) ++ [("responses", responses)])).get? key =
    if key ∈ copiedKeywords then op.get? key
      else if "parameters" = key then some parameters
      else if "requestBody" = key then request
      else if "responses" = key then some responses else none := by
  have hrequest : Assoc.get? (request.toList.map fun v => ("requestBody", v)) key =
      if "requestBody" = key then request else none := by
    cases request with
    | none => exact (ite_self none).symm
    | some v => rfl
  show Assoc.get? (_ ++ _) _ = _
  rw [Assoc.get?_append, Assoc.get?_append, Assoc.get?_append, get?_pick, hrequest]
  simp only [Assoc.get?]
  by_cases hkey : key ∈ copiedKeywords
  · have hother : ∀ other, other ∉ copiedKeywords → other ≠ key := by
      rintro other ho rfl
      exact ho hkey
    rw [if_pos hkey, if_pos hkey, if_neg (hother _ (by decide)), if_neg (hother _ (by decide)),
      if_neg (hother _ (by decide))]
    simp only [Option.or_none]
  · rw [if_neg hkey, if_neg hkey]
    split
    · rfl
    · split
      · next hbody =>
        subst hbody
        simp
      · simp

/-- An upgraded operation, of its parts. -/
def assembled (op : Json) (types : List String) (merged : Assoc (String × String) Json)
    (responses : Assoc String Json) : Json :=
  .obj (pick copiedKeywords op ++
    [("parameters", .arr ((merged.filter fun p => !isBody p && !isForm p).map
      fun p => upgradeParameter p.2))] ++
    ((request? types merged).toList.map fun v => ("requestBody", v)) ++
    [("responses", .obj responses)])

section Assembled

variable (op : Json) (types : List String) (merged : Assoc (String × String) Json)
  (responses : Assoc String Json)

theorem get?_assembled {key : String} (hkey : key ∈ copiedKeywords) :
    (assembled op types merged responses).get? key = op.get? key :=
  (get?_upgraded ..).trans (if_pos hkey)

theorem parametersOf_assembled : parametersOf (assembled op types merged responses) =
    (merged.filter fun p => !isBody p && !isForm p).map fun p => upgradeParameter p.2 := by
  rw [parametersOf, Json.getArray?, assembled, get?_upgraded, if_neg (by decide), if_pos rfl]
  rfl

theorem request_assembled :
    (assembled op types merged responses).get? "requestBody" = request? types merged := by
  rw [assembled, get?_upgraded, if_neg (by decide), if_neg (by decide), if_pos rfl]

theorem responses_assembled :
    (assembled op types merged responses).get? "responses" = some (.obj responses) := by
  rw [assembled, get?_upgraded, if_neg (by decide), if_neg (by decide), if_neg (by decide),
    if_pos rfl]

end Assembled

theorem upgradeOperation_eq_ok {root op v : Json} {defaults : Defaults} {shared : List Json} :
    upgradeOperation root defaults shared op = .ok v ↔ ∃ merged responses,
      mergeParameters root shared (parametersOf op) = .ok merged ∧
      upgradeResponses root (mediaTypesOf op "produces" defaults.produces) op = .ok responses ∧
      assembled op (mediaTypesOf op "consumes" defaults.consumes) merged responses = v := by
  unfold upgradeOperation
  simp only [except_bind_eq_ok]
  constructor
  · rintro ⟨merged, hmerged, responses, hresponses, h⟩
    exact ⟨merged, responses, hmerged, hresponses, Except.ok.inj h⟩
  · rintro ⟨merged, responses, hmerged, hresponses, rfl⟩
    exact ⟨merged, hmerged, responses, hresponses, rfl⟩

/-- Upgraded from parameters that are kin, an operation is read alike. -/
theorem operationAlike_upgraded {merged merged' : Assoc (String × String) Json}
    (h : Assoc.Alike Kin merged merged') (op : Json) (types : List String)
    {responses : Assoc String Json} (hresponses : ∀ p ∈ responses, p.2.get? "$ref" = none)
    (r r' : Json) : OperationAlike r r' [] [] (assembled op types merged responses)
      (assembled op types merged' responses) where
  parameters := by
    have hkept := filter_of_forall₂ (p := fun p => !isBody p && !isForm p)
      (q := fun p => !isBody p && !isForm p) h fun p p' hp => by
        rw [isBody, isBody, isForm, isForm, hp.1]
    refine mergeParameters_alike (R := ParameterAlike) (fun v v' hv => ?_) ?_
    · rw [parameterKey, parameterKey, hv.name, hv.place]
    · rw [parametersOf_assembled, parametersOf_assembled, List.nil_append, List.nil_append,
        List.forall₂_map_left_iff, List.forall₂_map_right_iff]
      refine List.Forall₂.imp (fun p p' hp => ?_) hkept
      rw [follow_upgradeParameter, follow_upgradeParameter]
      exact .ok (upgradeParameter_alike hp.2)
  request := by
    rw [request_assembled, request_assembled]
    exact request?_alike h types r r'
  response := by
    rw [responses_assembled, responses_assembled]
    show Option.Rel _ (Assoc.get? responses "200") (Assoc.get? responses "200")
    cases hv : Assoc.get? responses "200" with
    | none => exact .none
    | some v =>
      have hreference := hresponses _ (Assoc.mem_of_get? hv)
      refine .some ?_
      rw [Pointer.follow_of_no_reference r hreference, Pointer.follow_of_no_reference r' hreference]
      exact .ok (.of_kin (.refl v))
  limit := by
    rw [get?_assembled op _ _ _ (by decide), get?_assembled op _ _ _ (by decide)]

/-- An operation that is upgraded in documents that are kin. -/
theorem upgradeOperation_kin (h : Kin root root') (defaults : Defaults) (shared : List Json)
    (op : Json) (key : String) :
    ExceptAlike (fun v v' => ∀ r r', MemberAlike r r' [] [] (key, v) (key, v'))
      (upgradeOperation root defaults shared op) (upgradeOperation root' defaults shared op) := by
  unfold upgradeOperation
  refine (mergeParameters_kin h shared _).bind fun hmerged => ?_
  refine (upgradeResponses_kin h _ op).bind fun {responses _} hresponses => ?_
  obtain ⟨rfl, hreference⟩ := hresponses
  refine .ok fun r r' => .operation key ?_
    (operationAlike_upgraded hmerged op _ hreference r r')
  show ((assembled ..).get? _).isSome = ((assembled ..).get? _).isSome
  rw [responses_assembled, responses_assembled]

/-! ### Path items -/

/-- Where all members are named for methods, there is nothing under other keys. -/
theorem get?_methods {members : Assoc String Json}
    (h : ∀ m ∈ members, (HttpMethod.ofName? m.1).isSome) {key : String}
    (hkey : HttpMethod.ofName? key = none) : (Json.obj members).get? key = none := by
  refine Assoc.get?_eq_none_iff.2 fun hmem => ?_
  obtain ⟨m, hm, rfl⟩ := List.mem_map.1 hmem
  have hsome := h m hm
  rw [hkey] at hsome
  cases hsome

/-- Members of kin that can be operations are the same, in some order. -/
theorem methods_kin {members members' : Assoc String Json}
    (h : Kin (.obj members) (.obj members')) :
    (members.filter fun p => (HttpMethod.ofName? p.1).isSome).Perm
      (members'.filter fun p => (HttpMethod.ofName? p.1).isSome) := by
  rcases h with h | ⟨path, hpath, h⟩
  · cases h
    exact .refl _
  · cases h with
    | here hkeys hperm => exact hperm.filter _
    | @under before after key path u u' hfirst h =>
      have hkey := ofName?_of_mem_layoutKeys (hpath List.mem_cons_self)
      simp [List.filter_append, hkey]

/-- Path items that hold operations only, each read like one of the other. -/
structure ItemAlike (item item' : Json) : Prop where
  methods : ∀ key, HttpMethod.ofName? key = none → item.get? key = none
  methods' : ∀ key, HttpMethod.ofName? key = none → item'.get? key = none
  members : Covers (fun m m' => ∀ r r', MemberAlike r r' [] [] m m')
    (item.asObject?.getD []) (item'.asObject?.getD [])

theorem ItemAlike.pathItemAlike {item item' : Json} (h : ItemAlike item item') (r r' : Json) :
    ExceptAlike (PathItemAlike r r') (Pointer.follow r item) (Pointer.follow r' item') := by
  rw [Pointer.follow_of_no_reference r (h.methods _ (by decide)),
    Pointer.follow_of_no_reference r' (h.methods' _ (by decide))]
  refine .ok ?_
  unfold PathItemAlike parametersOf Json.getArray?
  rw [h.methods _ (by decide), h.methods' _ (by decide)]
  exact h.members.imp fun _ _ hm => hm r r'

/-- Upgraded operations that are named for methods and read alike. -/
def UpgradedAlike (m m' : String × Json) : Prop :=
  (HttpMethod.ofName? m.1).isSome ∧ (HttpMethod.ofName? m'.1).isSome ∧
    ∀ r r', MemberAlike r r' [] [] m m'

theorem upgradeMember_kin (h : Kin root root') (defaults : Defaults) (shared : List Json)
    {m : String × Json} (hm : (HttpMethod.ofName? m.1).isSome) :
    ExceptAlike UpgradedAlike
      (match m.2 with
        | .obj _ => do pure (m.1, ← upgradeOperation root defaults shared m.2)
        | op => pure (m.1, op))
      (match m.2 with
        | .obj _ => do pure (m.1, ← upgradeOperation root' defaults shared m.2)
        | op => pure (m.1, op)) := by
  obtain ⟨key, op⟩ := m
  cases op with
  | obj fields =>
    exact (upgradeOperation_kin h defaults shared _ key).bind fun ho => .ok ⟨hm, hm, ho⟩
  | null | bool | num | str | arr => exact .ok ⟨hm, hm, fun _ _ => .other key rfl⟩

theorem upgradePathItem_kin (h : Kin root root') (defaults : Defaults) (hv : Kin v v') :
    ExceptAlike ItemAlike (upgradePathItem root defaults v)
      (upgradePathItem root' defaults v') := by
  have hother : v.asObject? = none → ItemAlike v v := fun hnone =>
    ⟨fun key _ => by rw [Json.get?, hnone]; rfl, fun key _ => by rw [Json.get?, hnone]; rfl, by
      rw [hnone]
      exact covers_of_forall₂ .nil⟩
  cases v with
  | obj members =>
    obtain ⟨members', rfl⟩ : ∃ members', v' = .obj members' := by
      rcases hv with rfl | ⟨path, -, hv⟩
      · exact ⟨members, rfl⟩
      · obtain ⟨_, members', -, rfl⟩ := objects_of_reordered hv
        exact ⟨members', rfl⟩
    have hperm := methods_kin hv
    unfold upgradePathItem
    dsimp only
    rw [parametersOf_kin hv]
    refine (mapM_covers (T := UpgradedAlike) ⟨fun m hm => ⟨m, hperm.mem_iff.1 hm, ?_⟩,
      fun m hm => ⟨m, hperm.mem_iff.2 hm, ?_⟩⟩).bind fun hcovers => .ok ?_
    · exact upgradeMember_kin h defaults _ (List.mem_filter.1 hm).2
    · exact upgradeMember_kin h defaults _ (List.mem_filter.1 hm).2
    · refine ⟨fun key => get?_methods fun m hm => ?_, fun key => get?_methods fun m hm => ?_,
        hcovers.imp fun _ _ hm => hm.2.2⟩
      · obtain ⟨m', -, hR⟩ := hcovers.1 m hm
        exact hR.1
      · obtain ⟨m', -, hR⟩ := hcovers.2 m hm
        exact hR.2.1
  | null | bool | num | str | arr =>
    rcases hv with rfl | ⟨path, -, hv⟩
    · exact .ok (hother rfl)
    · cases hv

theorem upgradePaths_kin (h : Kin root root') :
    ExceptAlike (Assoc.Alike ItemAlike) (upgradePaths root) (upgradePaths root') := by
  unfold upgradePaths
  rw [h.get?_eq (by decide), h.get?_eq (by decide), h.getObject? (by decide)]
  refine mapM_alike (List.forall₂_same.2 fun p _ => ?_)
  refine (Pointer.follow_kin h (.refl p.2)).bind fun hv => ?_
  exact (upgradePathItem_kin h _ hv).bind fun hitem => .ok ⟨rfl, hitem⟩

/-! ### Documents -/

/-- The named schemas of a document in the older layout, in another order. -/
theorem layoutAlike_of_reordered (h : Reordered ["definitions"] root root') :
    ExceptAlike LayoutAlike (upgrade root) (upgrade root') := by
  have hkin : Kin root root' := .inr ⟨_, by decide, h⟩
  unfold upgrade
  refine (upgradePaths_kin hkin).bind fun {paths paths'} hpaths => .ok ?_
  obtain ⟨schemas, schemas', hs, hs', hschemas⟩ := h.get?_under
  rw [hs, hs']
  cases hschemas with
  | @here fields fields' hkeys hperm =>
    refine ⟨?_, hperm, hkeys⟩
    show Assoc.Alike _ paths paths'
    exact hpaths.imp fun _ _ hitem => hitem.pathItemAlike _ _

end Document.Upgrade

namespace Document

open Json

variable {root root' : Json} {d : Document}

/-- Where the named schemas of a document stand, in the layout that it declares. -/
def schemasPath (root : Json) : List String :=
  if (root.get? "swagger").isSome then ["definitions"] else ["components", "schemas"]

/-- Both documents declare the same layout. -/
theorem declared_of_reordered (h : Reordered (schemasPath root) root root') {key : String}
    (hkey : key ∉ layoutKeys) : root.get? key = root'.get? key := by
  refine Kin.get?_eq (.inr ⟨_, ?_, h⟩) hkey
  unfold schemasPath
  split <;> decide

theorem schemasPath_of_reordered (h : Reordered (schemasPath root) root root') :
    schemasPath root' = schemasPath root := by
  rw [schemasPath, schemasPath, declared_of_reordered h (by decide)]

/-- With its named schemas in another order, a document is read as before. -/
theorem reread_of_reordered (h : Reordered (schemasPath root) root root')
    (hd : ofJson root = .ok d) : ∃ d', ofJson root' = .ok d' ∧ Reread d d' := by
  have hswagger := declared_of_reordered h (by decide : "swagger" ∉ layoutKeys)
  have hopenapi := declared_of_reordered h (by decide : "openapi" ∉ layoutKeys)
  unfold ofJson at hd ⊢
  unfold schemasPath at h
  rw [← hswagger, ← hopenapi]
  split at hd
  · next hold =>
    rw [if_pos hold] at h ⊢
    have hupgraded := Upgrade.layoutAlike_of_reordered h
    generalize Upgrade.upgrade root = up, Upgrade.upgrade root' = up' at hd hupgraded
    cases hupgraded with
    | error e e' => cases hd
    | ok hlayout => exact reread_of_layoutAlike hlayout hd
  · next hnew =>
    rw [if_neg hnew] at h ⊢
    split at hd
    · next hdeclared =>
      rw [if_pos hdeclared]
      exact reread_of_layoutAlike (layoutAlike_of_reordered h) hd
    · cases hd

end Document

end TypedClient
