import TypedClient.Proofs.Document.Blanked
import TypedClient.Proofs.Document.Carried
import TypedClient.Proofs.Document.SameReading

/-! Responses for other codes than 200 are not read. In the newer layout a document is the same with
and without them. In the older layout the upgrade follows their references first, and so they do
not matter exactly if none of them leads nowhere. -/

namespace TypedClient

namespace Document

open Json

variable {S : Places} {root v w : Json} {shared own : List Json}

/-! ### Parts of an operation -/

theorem Unreferenced.blanked (h : Unreferenced S root) : Blanked S root (root.blank S) :=
  ⟨S, ⟨fun path hpath => ⟨[], h.other path hpath⟩, fun _ => Bool.eq_false_iff.2 fun hkey =>
    absurd (h.other _ hkey) Bool.false_ne_true⟩, h.avoids, rfl⟩

/-- Schemas under a key, null where there is none. -/
theorem schema_blanked (h : Blanked S v w) :
    Schema.ReadAlike ((v.get? "schema").getD .null) ((w.get? "schema").getD .null) := by
  have hget := h.get? (show "schema" ≠ "responses" by decide)
  generalize v.get? "schema" = u, w.get? "schema" = u' at hget
  cases hget with
  | none => exact .refl _
  | some hu => exact hu.readAlike

theorem ParameterSame.of_blanked (h : Blanked S v w) : ParameterSame v w where
  name := h.getString? (by decide)
  place := h.getString? (by decide)
  required := h.getBool? (by decide)
  description := h.getString? (by decide)
  schema := by
    have hget := h.get? (show "schema" ≠ "responses" by decide)
    have hcontent := h.getObject? (show "content" ≠ "responses" by decide) (by decide)
    unfold schemaOf?
    generalize v.get? "schema" = u, w.get? "schema" = u' at hget
    generalize (v.getObject? "content").getD [] = content,
      (w.getObject? "content").getD [] = content' at hcontent
    cases hget with
    | some hu => exact .some hu.readAlike
    | none =>
      cases hcontent with
      | nil => exact .none
      | cons hp _ => exact rel_imp (hp.2.get? (by decide)) fun _ _ _ _ hu => hu.readAlike

theorem BodySame.of_blanked (h : Blanked S v w) : BodySame v w where
  description := h.getString? (by decide)
  content := (h.getObject? (by decide) (by decide)).imp fun _ _ => schema_blanked

theorem set_blank (r : LimitedResource) (field : String) (v : Json) (T : Places) :
    r.set field (v.blank T) = r.set field v := by
  cases v <;> rfl

/-- No field of a limit is an object. -/
theorem limit_blanked (h : Blanked S v w) :
    LimitedResource.ofJson v = LimitedResource.ofJson w := by
  obtain ⟨T, hlate, -, rfl⟩ := h
  cases v with
  | obj fields =>
    show fields.foldlM _ _ = (blankFields T fields).foldlM _ _
    rw [blankFields_eq_map, List.foldlM_map]
    congr 1
    funext r m
    rw [blankMember, hlate.inside, if_neg Bool.false_ne_true, set_blank]
  | null | bool | num | str | arr => rfl

theorem readLimit?_blanked {u u' : Option Json} (h : Option.Rel (Blanked S) u u') (spot : Spot) :
    readLimit? spot u = readLimit? spot u' := by
  cases h with
  | none => rfl
  | some hu => rw [readLimit?, readLimit?, limit_blanked hu]

theorem parametersOf_blanked (h : Blanked S v w) :
    parametersOf w = parametersOf v ∧ ∀ u ∈ parametersOf v, Blanked S u u := by
  have hget := h.get? (show "parameters" ≠ "responses" by decide)
  refine ⟨?_, ?_⟩
  · rw [parametersOf, parametersOf, h.getArray? (by decide)]
  · unfold parametersOf Json.getArray?
    generalize v.get? "parameters" = u, w.get? "parameters" = u' at hget
    cases hget with
    | none => exact fun _ hu => absurd hu List.not_mem_nil
    | @some u u' hu =>
      rw [Option.bind_some]
      cases hitems : u.asArray? with
      | none => exact fun _ hu => absurd hu List.not_mem_nil
      | some items => exact hu.items hitems

theorem mergeParameters_same (h : Unreferenced S root) (hshared : ∀ u ∈ shared, Blanked S u u)
    (hown : ∀ u ∈ own, Blanked S u u) :
    ExceptSame (Assoc.Alike (Blanked S)) (mergeParameters root shared own)
      (mergeParameters (root.blank S) shared own) := by
  have hall : List.Forall₂ (Blanked S) (shared ++ own) (shared ++ own) :=
    List.forall₂_same.2 fun u hu => (List.mem_append.1 hu).elim (hshared u) (hown u)
  refine foldlM_same hall .nil fun hm hu => (follow_blanked h hu).map fun {a b} hab => ?_
  rw [parameterKey, parameterKey, hab.getString? (by decide), hab.getString? (by decide)]
  exact Assoc.Alike.put hm _ hab

/-! ### The newer layout -/

section Newer

variable (h : Unreferenced S root)

include h

theorem bodiesSame_of_blanked {v w : Option Json} (hv : Option.Rel (Blanked S) v w) :
    BodiesSame root (root.blank S) v w :=
  rel_imp hv fun _ _ _ _ hu => (follow_blanked h hu).imp fun _ _ => .of_blanked

theorem operationSame_of_blanked (hshared : ∀ u ∈ shared, Blanked S u u) (hv : Blanked S v w) :
    OperationSame root (root.blank S) shared shared v w where
  parameters := by
    obtain ⟨hsame, hown⟩ := parametersOf_blanked hv
    rw [hsame]
    exact (mergeParameters_same h hshared hown).imp fun _ _ hm => hm.imp fun _ _ => .of_blanked
  request := bodiesSame_of_blanked h (hv.get? (by decide))
  response := bodiesSame_of_blanked h hv.response
  limit spot := readLimit?_blanked (hv.get? (by decide)) spot
  text key hkey := by
    have hne : key ≠ "responses" := by
      rintro rfl
      exact absurd hkey (by decide)
    exact hv.getString? hne
  tags := hv.getArray? (by decide)

theorem memberSame_of_blanked (hshared : ∀ u ∈ shared, Blanked S u u) {p q : String × Json}
    (hkey : p.1 = q.1) (hp : p.1 ≠ "responses" → Blanked S p.2 q.2) :
    MemberSame root (root.blank S) shared shared p q := by
  obtain ⟨key, v⟩ := p
  obtain ⟨key', w⟩ := q
  cases hkey
  by_cases hresponses : key = "responses"
  · exact .unnamed (hresponses ▸ by decide) v w
  have hv := hp hresponses
  have hsame := operationSame_of_blanked h hshared hv
  obtain ⟨T, -, -, rfl⟩ := hv
  cases v with
  | obj fields =>
    refine .operation key ?_ hsame
    rw [Assoc.has, Assoc.has, get?_blankFields, Option.isSome_map]
  | null | bool | num | str | arr => exact .other key rfl

theorem pathItemSame_of_blanked (hv : Blanked S v w) : PathItemSame root (root.blank S) v w := by
  obtain ⟨hsame, hshared⟩ := parametersOf_blanked hv
  unfold PathItemSame
  rw [hsame]
  exact hv.members.imp fun p q hp => memberSame_of_blanked h hshared hp.1 hp.2

theorem schemasOf_blanked : Assoc.Alike Schema.ReadAlike (schemasOf root)
    (schemasOf (root.blank S)) := by
  have hcomponents := h.blanked.get? (show "components" ≠ "responses" by decide)
  unfold schemasOf
  generalize root.get? "components" = u, (root.blank S).get? "components" = u' at hcomponents
  cases hcomponents with
  | none => exact .nil
  | some hu =>
    exact (hu.getObject? (show "schemas" ≠ "responses" by decide) (by decide)).imp
      fun _ _ => Blanked.readAlike

theorem info_blanked {key : String} (hkey : key ≠ "responses") :
    (root.get? "info").bind (·.getString? key) =
      ((root.blank S).get? "info").bind (·.getString? key) :=
  bind_eq_of_rel (h.blanked.get? (by decide)) fun hu => hu.getString? hkey

/-- A document in the newer layout is read as the same one without other responses. -/
theorem layoutSame_of_blank : LayoutSame root (root.blank S) where
  paths := (h.blanked.getObject? (by decide) (by decide)).imp fun _ _ hv =>
    (follow_blanked h hv).imp fun _ _ => pathItemSame_of_blanked h
  schemas := schemasOf_blanked h
  info key hkey := info_blanked h (by rintro rfl; exact absurd hkey (by decide))
  tags := h.blanked.getArray? (by decide)

end Newer

/-! ### The older layout -/

namespace Upgrade

theorem mediaTypes_blanked {u u' : Option Json} (h : Option.Rel (Blanked S) u u') :
    mediaTypes u = mediaTypes u' := by
  rw [mediaTypes, mediaTypes, bind_eq_of_rel h Blanked.asArray?]

theorem mediaTypesOf_blanked (h : Blanked S v w) {key : String} (hkey : key ≠ "responses")
    (inherited : List String) : mediaTypesOf v key inherited = mediaTypesOf w key inherited := by
  have hget := h.get? hkey
  unfold mediaTypesOf
  generalize v.get? key = u, w.get? key = u' at hget
  cases hget with
  | none => rfl
  | some hu => exact mediaTypes_blanked (.some hu)

theorem parameterSchema_of_no_object {v : Json} (h : v.asObject? = none) :
    parameterSchema v = .null := by
  cases v with
  | obj => cases h
  | null | bool | num | str | arr => rfl

theorem parameterSchema_obj (fields : Assoc String Json) :
    parameterSchema (.obj fields) = (Assoc.get? fields "schema").getD
      (.obj (fields.filter fun p => !parameterKeywords.contains p.1)) := by
  unfold parameterSchema
  dsimp only
  split
  · next hschema => rw [hschema, Option.getD_some]
  · next hschema => rw [hschema, Option.getD_none]

theorem parameterSchema_blanked (h : Blanked S v w) :
    Schema.ReadAlike (parameterSchema v) (parameterSchema w) := by
  have hget := h.get? (show "schema" ≠ "responses" by decide)
  obtain ⟨T, hlate, -, rfl⟩ := h
  cases v with
  | obj fields =>
    have hfilter : (blankFields T fields).filter (fun p => !parameterKeywords.contains p.1) =
        blankFields T (fields.filter fun p => !parameterKeywords.contains p.1) := by
      rw [blankFields_eq_map, blankFields_eq_map, List.filter_map]
      rfl
    rw [blank, parameterSchema_obj, parameterSchema_obj]
    change Option.Rel _ (Assoc.get? fields "schema") (Assoc.get? (blankFields T fields) "schema")
      at hget
    generalize Assoc.get? fields "schema" = u,
      Assoc.get? (blankFields T fields) "schema" = u' at hget
    cases hget with
    | some hu => exact hu.readAlike
    | none =>
      rw [hfilter]
      exact readAlike_blank (.obj _) hlate
  | null | bool | num | str | arr => exact .refl _

/-- What is read of an upgraded parameter is what the parameter says. -/
theorem parameterSame_upgraded
    (htext : ∀ key ∈ ["name", "in", "description"], v.getString? key = w.getString? key)
    (hrequired : v.getBool? "required" = w.getBool? "required")
    (hschema : Schema.ReadAlike (parameterSchema v) (parameterSchema w)) :
    ParameterSame (upgradeParameter v) (upgradeParameter w) := by
  have hread : ∀ key ∈ ["name", "in", "description"],
      (upgradeParameter v).getString? key = (upgradeParameter w).getString? key := by
    intro key hkey
    have hall : ∀ key ∈ ["name", "in", "description"],
        key ∈ ["name", "in", "required", "description"] := by decide
    rw [Json.getString?, Json.getString?, get?_upgradeParameter_of_mem (hall key hkey),
      get?_upgradeParameter_of_mem (hall key hkey)]
    exact htext key hkey
  refine ⟨hread _ (by decide), hread _ (by decide), ?_, hread _ (by decide), ?_⟩
  · rw [Json.getBool?, Json.getBool?, get?_upgradeParameter_of_mem (by decide),
      get?_upgradeParameter_of_mem (by decide)]
    exact hrequired
  · rw [schemaOf?_upgradeParameter, schemaOf?_upgradeParameter]
    exact .some hschema

theorem upgradeParameter_same (h : Blanked S v w) :
    ParameterSame (upgradeParameter v) (upgradeParameter w) := by
  refine parameterSame_upgraded (fun key hkey => h.getString? ?_) (h.getBool? (by decide))
    (parameterSchema_blanked h)
  rintro rfl
  exact absurd hkey (by decide)

theorem fieldAlike_of_blanked (h : Blanked S v w) : FieldAlike v w where
  required := h.getBool? (by decide)
  schema := parameterSchema_blanked h

theorem contentOf_alike (types : List String) {s s' : Json} (h : Schema.ReadAlike s s') :
    ContentAlike ((contentOf types s).asObject?.getD [])
      ((contentOf types s').asObject?.getD []) := by
  refine Assoc.Alike.putAll .nil ?_
  unfold Assoc.Alike
  rw [List.forall₂_map_left_iff, List.forall₂_map_right_iff, List.forall₂_same]
  exact fun _ _ => ⟨rfl, h⟩

theorem bodyRequest_same (types : List String) (h : Blanked S v w) :
    BodySame (bodyRequest types v) (bodyRequest types w) where
  description := by
    have hget : ∀ u, (bodyRequest types u).get? "description" = u.get? "description" := by
      intro u
      show Assoc.get? (_ ++ _) _ = _
      rw [Assoc.get?_append, get?_pick, if_pos (by decide)]
      rfl
    rw [Json.getString?, Json.getString?, hget, hget]
    exact h.getString? (by decide)
  content := contentOf_alike types (schema_blanked h)

theorem request?_same {merged merged' : Assoc (String × String) Json}
    (h : Assoc.Alike (Blanked S) merged merged') (types : List String) (r r' : Json) :
    BodiesSame r r' (request? types merged) (request? types merged') := by
  refine rel_imp (request?_rel (Q := BodySame) (fun _ _ => bodyRequest_same types)
    (fun _ _ hfields => ⟨rfl, ?_⟩) h) fun v _ v' _ hv => ?_
  · exact formRequest_alike (hfields.imp fun _ _ => fieldAlike_of_blanked)
  · rw [Pointer.follow_of_no_reference r hv.2.1, Pointer.follow_of_no_reference r' hv.2.2]
    exact .ok hv.1

theorem get?_upgradeResponse (types : List String) (v : Json) (key : String) :
    (upgradeResponse types v).get? key = if key = "description" then v.get? key
      else if key = "content" then (v.get? "schema").map (contentOf types) else none := by
  show Assoc.get? (_ ++ _) _ = _
  rw [Assoc.get?_append, get?_pick]
  generalize v.get? "schema" = schema
  by_cases hkey : key = "description"
  · subst hkey
    cases schema <;> simp [Assoc.get?]
  · cases schema <;> simp [Assoc.get?, hkey, eq_comm]

theorem upgradeResponse_same (types : List String) (h : Blanked S v w) :
    BodySame (upgradeResponse types v) (upgradeResponse types w) where
  description := by
    rw [Json.getString?, Json.getString?, get?_upgradeResponse, get?_upgradeResponse, if_pos rfl,
      if_pos rfl]
    exact h.getString? (by decide)
  content := by
    have hget := h.get? (show "schema" ≠ "responses" by decide)
    rw [Json.getObject?, Json.getObject?, get?_upgradeResponse, get?_upgradeResponse,
      if_neg (by decide), if_pos rfl, if_neg (by decide), if_pos rfl]
    generalize v.get? "schema" = u, w.get? "schema" = u' at hget
    cases hget with
    | none => exact .nil
    | some hu => exact contentOf_alike types hu.readAlike

/-- The responses for other codes than 200 lead somewhere. -/
def OthersLead (root op : Json) : Prop :=
  ∀ p ∈ (op.getObject? "responses").getD [], p.1 ≠ "200" → ∃ u, Pointer.follow root p.2 = .ok u

instance (root op : Json) : Decidable (OthersLead root op) :=
  decidable_of_iff (∀ p ∈ (op.getObject? "responses").getD [], p.1 ≠ "200" →
      (Pointer.follow root p.2).isOk = true) <|
    forall₃_congr fun p _ _ => by
      cases Pointer.follow root p.2 <;> simp [Except.isOk, Except.toBool]

/-- Upgraded responses that are the same for code 200. -/
def ResponseSame (p q : String × Json) : Prop :=
  p.1 = q.1 ∧ (p.1 = "200" → ∀ r r',
    ExceptSame BodySame (Pointer.follow r p.2) (Pointer.follow r' q.2))

theorem upgradeResponses_same (h : Unreferenced S root) (hv : Blanked S v w)
    (hlead : OthersLead root v) (types : List String) :
    ExceptSame (List.Forall₂ ResponseSame) (upgradeResponses root types v)
      (upgradeResponses (root.blank S) types w) := by
  refine mapM_same (forall₂_imp hv.responses fun p hp q _ hpq => ?_)
  obtain ⟨code, u⟩ := p
  obtain ⟨code', u'⟩ := q
  obtain ⟨rfl, hu⟩ := hpq
  rcases hu with hu | ⟨hcode, rfl⟩
  · refine (follow_blanked h hu).bind fun hx => .ok ⟨rfl, fun _ r r' => ?_⟩
    rw [Pointer.follow_of_no_reference r (reference_upgradeResponse _ _),
      Pointer.follow_of_no_reference r' (reference_upgradeResponse _ _)]
    exact .ok (upgradeResponse_same types hx)
  -- a response that is blanked leads to itself, so the other one must lead somewhere
  · obtain ⟨x, hx⟩ := hlead _ hp hcode
    dsimp only at hx ⊢
    rw [hx]
    exact .ok ⟨rfl, fun h200 => absurd h200 hcode⟩

theorem get?_of_responseSame {responses responses' : Assoc String Json}
    (h : List.Forall₂ ResponseSame responses responses') (r r' : Json) :
    BodiesSame r r' (Assoc.get? responses "200") (Assoc.get? responses' "200") := by
  induction h with
  | nil => exact .none
  | @cons p q _ _ hpq _ ih =>
    obtain ⟨code, u⟩ := p
    obtain ⟨code', u'⟩ := q
    obtain ⟨rfl, hu⟩ := hpq
    rw [Assoc.get?, Assoc.get?]
    split
    · next hcode => exact .some (hu hcode r r')
    · exact ih

theorem operationSame_upgraded {merged merged' : Assoc (String × String) Json}
    (h : Assoc.Alike (Blanked S) merged merged') (hkeyed : Keyed merged) (hkeyed' : Keyed merged')
    (hv : Blanked S v w) (types : List String) {responses responses' : Assoc String Json}
    (hresponses : List.Forall₂ ResponseSame responses responses') (r r' : Json) :
    OperationSame r r' [] [] (assembled v types merged responses)
      (assembled w types merged' responses') where
  parameters := by
    have hkept := filter_of_forall₂ (p := fun p => !isBody p && !isForm p)
      (q := fun p => !isBody p && !isForm p) h fun p p' hp => by
        rw [isBody, isBody, isForm, isForm, hp.1]
    rw [parametersOf_assembled, parametersOf_assembled,
      mergeParameters_upgraded r (hkeyed.filter _),
      mergeParameters_upgraded r' (hkeyed'.filter _)]
    refine .ok ?_
    unfold Assoc.Alike
    rw [List.forall₂_map_left_iff, List.forall₂_map_right_iff]
    exact hkept.imp fun p p' hp => ⟨hp.1, upgradeParameter_same hp.2⟩
  request := by
    rw [request_assembled, request_assembled]
    exact request?_same h types r r'
  response := by
    rw [responses_assembled, responses_assembled]
    exact get?_of_responseSame hresponses r r'
  limit spot := by
    rw [get?_assembled v _ _ _ (by decide), get?_assembled w _ _ _ (by decide)]
    exact readLimit?_blanked (hv.get? (by decide)) spot
  text key hkey := by
    have hall : ∀ key ∈ operationTexts, key ∈ copiedKeywords ∧ key ≠ "responses" := by decide
    rw [Json.getString?, Json.getString?, get?_assembled v _ _ _ (hall key hkey).1,
      get?_assembled w _ _ _ (hall key hkey).1]
    exact hv.getString? (hall key hkey).2
  tags := by
    rw [Json.getArray?, Json.getArray?, get?_assembled v _ _ _ (by decide),
      get?_assembled w _ _ _ (by decide)]
    exact hv.getArray? (by decide)

theorem upgradeOperation_same (h : Unreferenced S root) (defaults : Defaults)
    (hshared : ∀ u ∈ shared, Blanked S u u) (hv : Blanked S v w) (hlead : OthersLead root v)
    (key : String) :
    ExceptSame (fun u u' => ∀ r r', MemberSame r r' [] [] (key, u) (key, u'))
      (upgradeOperation root defaults shared v)
      (upgradeOperation (root.blank S) defaults shared w) := by
  obtain ⟨hsame, hown⟩ := parametersOf_blanked hv
  unfold upgradeOperation
  rw [hsame, ← mediaTypesOf_blanked hv (by decide), ← mediaTypesOf_blanked hv (by decide)]
  refine (mergeParameters_same h hshared hown).gives.bind fun {merged merged'} hmerged => ?_
  obtain ⟨hmerged, hgives, hgives'⟩ := hmerged
  refine (upgradeResponses_same h hv hlead _).bind fun hresponses => .ok fun r r' => ?_
  refine .operation key ?_ (operationSame_upgraded hmerged (merges_of_mergeParameters hgives).1
    (merges_of_mergeParameters hgives').1 hv _ hresponses r r')
  show ((assembled ..).get? _).isSome = ((assembled ..).get? _).isSome
  rw [responses_assembled, responses_assembled]
  rfl

/-- Upgraded operations that are named for methods and of which the same is read. -/
def UpgradedSame (m m' : String × Json) : Prop :=
  (HttpMethod.ofName? m.1).isSome ∧ (HttpMethod.ofName? m'.1).isSome ∧
    ∀ r r', MemberSame r r' [] [] m m'

theorem upgradeMember_same (h : Unreferenced S root) (defaults : Defaults)
    (hshared : ∀ u ∈ shared, Blanked S u u) {p q : String × Json} (hkey : p.1 = q.1)
    (hmethod : (HttpMethod.ofName? p.1).isSome) (hp : Blanked S p.2 q.2)
    (hlead : ∀ fields, p.2 = .obj fields → OthersLead root p.2) :
    ExceptSame UpgradedSame
      (match p.2 with
        | .obj _ => do pure (p.1, ← upgradeOperation root defaults shared p.2)
        | op => pure (p.1, op))
      (match q.2 with
        | .obj _ => do pure (q.1, ← upgradeOperation (root.blank S) defaults shared q.2)
        | op => pure (q.1, op)) := by
  obtain ⟨key, v⟩ := p
  obtain ⟨key', w⟩ := q
  cases hkey
  have hoperation := fun hlead => upgradeOperation_same h defaults hshared hp hlead key
  obtain ⟨T, -, -, rfl⟩ := hp
  cases v with
  | obj fields =>
    exact (hoperation (hlead fields rfl)).bind fun ho => .ok ⟨hmethod, hmethod, ho⟩
  | null | bool | num | str | arr => exact .ok ⟨hmethod, hmethod, fun _ _ => .other key rfl⟩

/-- Path items that hold operations only, of which the same is read. -/
structure ItemSame (item item' : Json) : Prop where
  methods : ∀ key, HttpMethod.ofName? key = none → item.get? key = none
  methods' : ∀ key, HttpMethod.ofName? key = none → item'.get? key = none
  members : ∀ r r', List.Forall₂ (MemberSame r r' [] []) (item.asObject?.getD [])
    (item'.asObject?.getD [])

theorem ItemSame.pathItemSame {item item' : Json} (h : ItemSame item item') (r r' : Json) :
    ExceptSame (PathItemSame r r') (Pointer.follow r item) (Pointer.follow r' item') := by
  rw [Pointer.follow_of_no_reference r (h.methods _ (by decide)),
    Pointer.follow_of_no_reference r' (h.methods' _ (by decide))]
  refine .ok ?_
  unfold PathItemSame parametersOf Json.getArray?
  rw [h.methods _ (by decide), h.methods' _ (by decide)]
  exact h.members r r'

theorem upgradePathItem_same (h : Unreferenced S root) (defaults : Defaults) (hv : Blanked S v w)
    (path : String) (hlead : ∀ l ∈ listedItem path v, OthersLead root l.value) :
    ExceptSame ItemSame (upgradePathItem root defaults v)
      (upgradePathItem (root.blank S) defaults w) := by
  obtain ⟨hsame, hshared⟩ := parametersOf_blanked hv
  have hmembers := hv.members
  obtain ⟨T, -, -, rfl⟩ := hv
  cases v with
  | obj members =>
    have hmethods := filter_of_forall₂ (p := fun p => (HttpMethod.ofName? p.1).isSome)
      (q := fun p => (HttpMethod.ofName? p.1).isSome) hmembers fun p q hpq => by rw [hpq.1]
    unfold upgradePathItem
    dsimp only [blank]
    rw [← blank, hsame]
    refine (mapM_same (T := UpgradedSame) (forall₂_imp hmethods fun p hp q _ hpq => ?_)).bind
      fun {upgraded upgraded'} hall => .ok ⟨fun key => get?_methods fun m hm => ?_,
        fun key => get?_methods fun m hm => ?_, fun r r' => hall.imp fun _ _ hm => hm.2.2 r r'⟩
    · obtain ⟨hmem, hmethod⟩ := List.mem_filter.1 hp
      refine upgradeMember_same h defaults hshared hpq.1 hmethod (hpq.2 ?_) fun fields hfields => ?_
      · intro hkey
        rw [hkey] at hmethod
        exact absurd hmethod (by decide)
      · obtain ⟨method, hname⟩ := Option.isSome_iff_exists.1 hmethod
        rw [hfields]
        refine hlead ⟨path, method, fields⟩ (List.mem_filterMap.2 ⟨_, hmem, ?_⟩)
        rw [listedMember?, hname, hfields]
    · obtain ⟨m', -, hR⟩ := exists_of_mem_left hall hm
      exact hR.1
    · obtain ⟨m', -, hR⟩ := exists_of_mem_right hall hm
      exact hR.2.1
  | null | bool | num | str | arr => exact .ok ⟨fun _ _ => rfl, fun _ _ => rfl, fun _ _ => .nil⟩

/-- All responses for other codes than 200 lead somewhere. -/
def AllLead (root : Json) : Prop := ∀ l ∈ listed root, OthersLead root l.value

instance (root : Json) : Decidable (AllLead root) :=
  inferInstanceAs (Decidable (∀ l ∈ listed root, OthersLead root l.value))

theorem upgradePaths_same (h : Unreferenced S root) (hlead : AllLead root) :
    ExceptSame (Assoc.Alike ItemSame) (upgradePaths root) (upgradePaths (root.blank S)) := by
  have hroot := h.blanked
  unfold upgradePaths
  rw [← mediaTypes_blanked (hroot.get? (by decide)), ← mediaTypes_blanked (hroot.get? (by decide))]
  refine mapM_same (forall₂_imp (hroot.getObject? (by decide) (by decide)) fun p hp q _ hpq => ?_)
  obtain ⟨path, v⟩ := p
  obtain ⟨path', w⟩ := q
  obtain ⟨rfl, hv⟩ := hpq
  refine (follow_blanked h hv).gives.bind fun {item item'} hitem => ?_
  obtain ⟨hitem, hfollow, -⟩ := hitem
  refine (upgradePathItem_same h _ hitem path fun l hl => hlead l ?_).bind
    fun hitem => .ok ⟨rfl, hitem⟩
  refine List.mem_flatMap.2 ⟨_, hp, ?_⟩
  dsimp only at hfollow ⊢
  rwa [hfollow]

/-- A document in the older layout is upgraded as the same one without other responses, if these
lead somewhere. -/
theorem layoutSame_of_upgrade (h : Unreferenced S root) (hlead : AllLead root) :
    ExceptSame LayoutSame (upgrade root) (upgrade (root.blank S)) := by
  have hroot := h.blanked
  unfold upgrade
  refine (upgradePaths_same h hlead).bind fun {paths paths'} hpaths => .ok
    ⟨?_, ?_, fun key hkey => ?_, ?_⟩
  · exact hpaths.imp fun _ _ hitem => hitem.pathItemSame _ _
  · have hschemas : ∀ r : Json, ((r.get? "definitions").getD (.obj [])).asObject?.getD [] =
        (r.getObject? "definitions").getD [] := fun r => by
      rw [Json.getObject?]
      cases r.get? "definitions" <;> rfl
    show Assoc.Alike _ (((root.get? "definitions").getD (.obj [])).asObject?.getD [])
      ((((root.blank S).get? "definitions").getD (.obj [])).asObject?.getD [])
    rw [hschemas, hschemas]
    exact (hroot.getObject? (by decide) (by decide)).imp fun _ _ => Blanked.readAlike
  · have hinfo := hroot.get? (show "info" ≠ "responses" by decide)
    show ((root.get? "info").getD (.obj [])).getString? key =
      (((root.blank S).get? "info").getD (.obj [])).getString? key
    generalize root.get? "info" = u, (root.blank S).get? "info" = u' at hinfo
    cases hinfo with
    | none => rfl
    | some hu => exact hu.getString? (by rintro rfl; exact absurd hkey (by decide))
  · have htags := hroot.get? (show "tags" ≠ "responses" by decide)
    show ((root.get? "tags").getD (.arr [])).asArray? =
      (((root.blank S).get? "tags").getD (.arr [])).asArray?
    generalize root.get? "tags" = u, (root.blank S).get? "tags" = u' at htags
    cases htags with
    | none => rfl
    | some hu => exact hu.asArray?

/-- Where a document is read, all of its responses lead somewhere. -/
theorem allLead_of_upgrade {upgraded : Json} (h : upgrade root = .ok upgraded) : AllLead root := by
  intro l hl p hp hcode
  rw [← map_snd_placed] at hl
  obtain ⟨q, hq, rfl⟩ := List.mem_map.1 hl
  obtain ⟨q', -, hupgrade⟩ := exists_of_mem_left (placed_upgrade h) hq
  obtain ⟨merged, responses, -, hresponses, -⟩ := upgradeOperation_eq_ok.1 hupgrade.upgraded
  obtain ⟨_, -, hresponse⟩ := exists_of_mem_left (mapM_eq_ok.1 hresponses) hp
  obtain ⟨u, hu, -⟩ := except_bind_eq_ok.1 hresponse
  exact ⟨u, hu⟩

end Upgrade

/-! ### Both layouts -/

/-- What is read of a document is read of it without other responses. -/
theorem ofJson_blank (h : Unreferenced S root)
    (hlead : isOlder root = true → Upgrade.AllLead root) :
    ofJson root = ofJson (root.blank S) := by
  unfold ofJson
  rw [← h.blanked.isSome_get? (by decide), ← h.blanked.isSome_get? (by decide)]
  split
  · next hold =>
    have hupgrade := Upgrade.layoutSame_of_upgrade h (hlead hold)
    generalize Upgrade.upgrade root = x, Upgrade.upgrade (root.blank S) = y at hupgrade
    cases hupgrade with
    | error e => rfl
    | ok hlayout => exact readLayout_congr hlayout _
  · split
    · exact readLayout_congr (layoutSame_of_blank h) _
    · rfl

/-- Documents that differ in responses for other codes than 200 only are read alike, in the older
layout if those responses lead somewhere. If one of them is read, the other one is exactly if this
holds. -/
theorem other_responses_unread {root' : Json} (h : Unreferenced S root)
    (h' : Unreferenced S root') (hsame : root.blank S = root'.blank S) :
    ((isOlder root = true → Upgrade.AllLead root ∧ Upgrade.AllLead root') →
        ofJson root = ofJson root') ∧
      ∀ d, ofJson root = .ok d →
        (ofJson root' = .ok d ↔ (isOlder root = true → Upgrade.AllLead root')) := by
  have hversion : isOlder root = isOlder root' := by
    rw [isOlder, isOlder, h.blanked.isSome_get? (by decide), hsame,
      ← h'.blanked.isSome_get? (by decide)]
  have hread : ∀ {root : Json} {d : Document}, ofJson root = .ok d → isOlder root = true →
      Upgrade.AllLead root := by
    intro root d hd hold
    unfold ofJson at hd
    rw [if_pos (show (root.get? "swagger").isSome = true from hold)] at hd
    split at hd
    · next hupgrade => exact Upgrade.allLead_of_upgrade hupgrade
    · cases hd
  have hequal : (isOlder root = true → Upgrade.AllLead root ∧ Upgrade.AllLead root') →
      ofJson root = ofJson root' := by
    intro hlead
    rw [ofJson_blank h fun hold => (hlead hold).1, hsame,
      ofJson_blank h' fun hold => (hlead (hversion ▸ hold)).2]
  refine ⟨hequal, fun d hd => ⟨fun hd' hold => hread hd' (hversion ▸ hold), fun hlead => ?_⟩⟩
  rw [← hequal fun hold => ⟨hread hd hold, hlead hold⟩]
  exact hd

/-- A document of the older layout with one operation, which refers to its response for code 200. -/
def answering (missing : Json) : Json := .obj [("swagger", .str "2.0"),
  ("paths", .obj [("/pets", .obj [("get", .obj [("responses", .obj [
    ("200", .obj [("$ref", .str "#/responses/Pets")]), ("404", missing)])])])]),
  ("responses", .obj [("Pets", .obj [("description", .str "All of them.")])])]

/-- The same response for code 404, referred to or not. -/
theorem unreferenced_answering (missing : Json) :
    Unreferenced isOtherResponse (answering missing) := by
  refine ⟨fun _ h => h, fun reference hr => ?_⟩
  have hreferences : references isOtherResponse (answering missing) = ["#/responses/Pets"] := rfl
  rw [hreferences, List.mem_singleton] at hr
  subst hr
  intro segments hway
  have hsegments : Pointer.way? "#/responses/Pets" = some ["responses".toList, "Pets".toList] := by
    decide +kernel
  cases hsegments.symm.trans hway
  refine ⟨fun start hstart => ?_, fun key => ?_⟩
  · exact isOtherResponse_of_short (Nat.lt_succ_of_le hstart.length_le)
  · simp [isOtherResponse]

theorem other_responses_unread_answering :
    let root := answering (.obj [])
    let root' := answering (.obj [("$ref", .str "#/responses/Pets")])
    Unreferenced isOtherResponse root ∧ Unreferenced isOtherResponse root' ∧
      root.blank isOtherResponse = root'.blank isOtherResponse ∧
      ∃ d, ofJson root = .ok d ∧ ofJson root = ofJson root' ∧ ofJson root' = .ok d := by
  intro root root'
  have h := unreferenced_answering (.obj [])
  have h' := unreferenced_answering (.obj [("$ref", .str "#/responses/Pets")])
  obtain ⟨hequal, hread⟩ := other_responses_unread h h' rfl
  have hrun : (ofJson root).isOk = true := by decide +kernel
  cases hd : ofJson root with
  | error e =>
    rw [hd] at hrun
    cases hrun
  | ok d =>
    refine ⟨h, h', rfl, d, rfl, hd ▸ hequal fun _ => ⟨?_, ?_⟩, (hread d hd).2 fun _ => ?_⟩
    all_goals decide +kernel

/-- In the older layout a response for code 404 that leads nowhere is looked up nevertheless. -/
theorem read_of_dangling :
    ¬ ∀ (S : Places) (root root' : Json), Unreferenced S root → Unreferenced S root' →
      root.blank S = root'.blank S → ofJson root = ofJson root' := by
  intro hclaim
  have hsame := hclaim isOtherResponse _ _ (unreferenced_answering (.obj []))
    (unreferenced_answering (.obj [("$ref", .str "#/responses/Missing")])) rfl
  have hread : (ofJson (answering (.obj []))).isOk = true := by decide +kernel
  rw [hsame] at hread
  exact absurd hread (by decide +kernel)

end Document

end TypedClient
