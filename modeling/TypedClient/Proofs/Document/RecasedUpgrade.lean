import TypedClient.Proofs.Client.MediaTypeGrammar
import TypedClient.Proofs.Document.RecasedLayout
import TypedClient.Text.AsciiTable

/-! Documents in either layout whose media types are written in other letters. In the older layout
what is consumed and produced becomes the keys of contents, each once, so the upgraded documents
differ in media types again. Of a document that has been read, types, models and client stay as they
are where the words by which kinds of content are told stay; where these change letters they do not,
since the words are compared as they are written. -/

namespace TypedClient

namespace Document

open Json

variable {kept : String → String → Prop} {root root' v w : Json}
variable {shared shared' : List Json}

/-! ### The older layout -/

namespace Upgrade

/-- Lists of media types: the same, or without repetition and in other letters. -/
def TypesRecased (kept : String → String → Prop) (types types' : List String) : Prop :=
  types = types' ∨
    types.Nodup ∧ types'.Nodup ∧ List.Forall₂ (MediaType.Recased kept) types types'

/-- What differs in more than case still does in other letters. -/
theorem apart_of_recased {names names' : List String}
    (h : List.Forall₂ (MediaType.Recased kept) names names')
    (hapart : names.Pairwise fun s t => ¬Text.sameLetters s t) :
    names'.Pairwise fun s t => ¬Text.sameLetters s t := by
  induction h with
  | nil => exact .nil
  | @cons s s' _ _ hs hrest ih =>
    obtain ⟨hfirst, hrests⟩ := List.pairwise_cons.1 hapart
    refine .cons (fun t' ht' => ?_) (ih hrests)
    obtain ⟨t, ht, htt⟩ := exists_of_mem_right hrest ht'
    have hne := hfirst t ht
    rwa [Text.sameLetters_iff, ← Text.sameLetters_iff.1 hs.letters,
      ← Text.sameLetters_iff.1 htt.letters, ← Text.sameLetters_iff]

theorem nodup_of_apart {names : List String}
    (h : names.Pairwise fun s t => ¬Text.sameLetters s t) : names.Nodup :=
  h.imp fun hne heq => hne (Text.sameLetters_iff.2 (congrArg Text.lower heq))

theorem mediaTypes_recased {key : String} (hkey : key ≠ "parameters") {u u' : Option Json}
    (h : Option.Rel (Recased kept key) u u') :
    TypesRecased kept (mediaTypes u) (mediaTypes u') := by
  cases h with
  | none => exact .inl rfl
  | some hu =>
    cases hu with
    | same => exact .inl rfl
    | object => exact .inl rfl
    | parameters => exact absurd rfl hkey
    | @mediaTypes _ types types' _ hapart h =>
      have hnames : List.Forall₂ (MediaType.Recased kept) (types.filterMap Json.asString?)
          (types'.filterMap Json.asString?) :=
        List.rel_filterMap (fun _ _ hentry => by
          cases hentry with
          | same v => exact rel_refl (fun _ => .inl rfl) _
          | text h => exact .some h) h
      have hapart' := apart_of_recased hnames hapart
      have hitems : ∀ items : List Json,
          ((some (Json.arr items)).bind Json.asArray?).getD [] = items := fun _ => rfl
      rw [mediaTypes, mediaTypes, hitems, hitems]
      generalize types.filterMap Json.asString? = names,
        types'.filterMap Json.asString? = names' at hnames hapart hapart'
      cases hnames with
      | nil => exact .inl rfl
      | cons h hrest =>
        exact .inr ⟨nodup_of_apart hapart, nodup_of_apart hapart', .cons h hrest⟩

theorem mediaTypesOf_recased (h : Landed kept v w) {key : String} (hslash : '/' ∉ key.toList)
    (hkey : key ≠ "parameters") {inherited inherited' : List String}
    (hinherited : TypesRecased kept inherited inherited') :
    TypesRecased kept (mediaTypesOf v key inherited) (mediaTypesOf w key inherited') := by
  have hget := h.get? hslash
  unfold mediaTypesOf
  generalize v.get? key = u, w.get? key = u' at hget
  cases hget with
  | none => exact hinherited
  | some hu => exact mediaTypes_recased hkey (.some hu)

theorem contentRecased_of_alike {content content' : Assoc String Json}
    (h : ContentAlike content content') : ContentRecased kept content content' :=
  List.Forall₂.imp (fun _ _ hp => ⟨.inl hp.1, hp.2⟩) h

section Types

variable {types types' : List String} (htypes : TypesRecased kept types types')

include htypes

theorem contentOf_recased {s s' : Json} (h : Schema.ReadAlike s s') :
    ContentRecased kept ((contentOf types s).asObject?.getD [])
      ((contentOf types' s').asObject?.getD []) := by
  obtain rfl | ⟨hnodup, hnodup', htypes⟩ := htypes
  · exact contentRecased_of_alike (contentOf_alike types h)
  · have hpairs : ∀ {types : List String} {s : Json}, types.Nodup →
        (contentOf types s).asObject?.getD [] = types.map fun t => (t, .obj [("schema", s)]) := by
      intro types s hnodup
      refine Assoc.ofPairs_of_nodup ?_
      rwa [Assoc.keys, List.map_map, show (Prod.fst ∘ fun t => (t, Json.obj [("schema", s)])) = id
        from rfl, List.map_id]
    rw [hpairs hnodup, hpairs hnodup']
    unfold ContentRecased
    rw [List.forall₂_map_left_iff, List.forall₂_map_right_iff]
    exact htypes.imp fun _ _ ht => ⟨ht, h⟩

theorem bodyRequest_recased (h : Landed kept v w) :
    BodyRecased kept (bodyRequest types v) (bodyRequest types' w) :=
  contentOf_recased htypes (schema_landed h)

theorem upgradeResponse_recased (h : Landed kept v w) :
    BodyRecased kept (upgradeResponse types v) (upgradeResponse types' w) := by
  have hget := h.get? (show '/' ∉ "schema".toList by decide)
  unfold BodyRecased
  rw [Json.getObject?, Json.getObject?, get?_upgradeResponse, get?_upgradeResponse,
    if_neg (by decide), if_pos rfl, if_neg (by decide), if_pos rfl]
  generalize v.get? "schema" = u, w.get? "schema" = u' at hget
  cases hget with
  | none => exact .nil
  | some hu => exact contentOf_recased htypes (Landed.value hu).readAlike

end Types

theorem parameterSchema_landed (h : Landed kept v w) :
    Schema.ReadAlike (parameterSchema v) (parameterSchema w) := by
  obtain ⟨under, fields, fields', rfl, rfl, hmembers⟩ | ⟨hv, hw⟩ := h.objects
  · have hget := hmembers.get? (show '/' ∉ "schema".toList by decide)
    rw [parameterSchema_obj, parameterSchema_obj]
    generalize Assoc.get? fields "schema" = u, Assoc.get? fields' "schema" = u' at hget
    cases hget with
    | some hu => exact (Landed.value hu).readAlike
    | none =>
      refine readAlike_of_members (filter_of_forall₂ hmembers fun p q hpq => ?_)
      have hplain : ∀ {key : String}, '/' ∈ key.toList →
          parameterKeywords.contains key = false := by
        intro key hslash
        have hall : ∀ key ∈ parameterKeywords, '/' ∉ key.toList := by decide +kernel
        exact Bool.eq_false_iff.2 fun hmem => hall key (List.contains_iff_mem.1 hmem) hslash
      by_cases hne : p.1 = q.1
      · rw [hne]
      · obtain ⟨-, hslash, hslash', -⟩ := hpq.1.slash hne
        rw [hplain hslash, hplain hslash']
  · rw [parameterSchema_of_no_object hv, parameterSchema_of_no_object hw]
    exact .refl _

theorem fieldAlike_of_landed (h : Landed kept v w) : FieldAlike v w where
  required := h.getBool? (by decide)
  schema := parameterSchema_landed h

theorem request?_recased {merged merged' : Assoc (String × String) Json}
    (h : Assoc.Alike (Landed kept) merged merged') {types types' : List String}
    (htypes : TypesRecased kept types types') (r r' : Json) :
    BodiesRecased kept r r' (request? types merged) (request? types' merged') := by
  refine rel_imp (request?_rel (Q := BodyRecased kept) (fun _ _ => bodyRequest_recased htypes)
    (fun _ _ hfields => ?_) h) fun v _ v' _ hv => ?_
  · exact contentRecased_of_alike (formRequest_alike (hfields.imp fun _ _ => fieldAlike_of_landed))
  · rw [Pointer.follow_of_no_reference r hv.2.1, Pointer.follow_of_no_reference r' hv.2.2]
    exact .ok hv.1

/-- Upgraded responses are no references any more. -/
theorem upgradeResponses_recased (h : Landed kept root root') (hv : Landed kept v w)
    {types types' : List String} (htypes : TypesRecased kept types types') :
    Jointly (Assoc.Alike fun u u' => ∀ r r',
        Jointly (BodyRecased kept) (Pointer.follow r u) (Pointer.follow r' u'))
      (upgradeResponses root types v) (upgradeResponses root' types' w) := by
  have hresponses := (hv.getObject? (show '/' ∉ "responses".toList by decide)).alike (by decide)
  refine mapM_jointly (List.Forall₂.imp (fun p q hpq => ?_) hresponses)
  obtain ⟨code, u⟩ := p
  obtain ⟨code', u'⟩ := q
  obtain ⟨rfl, hu⟩ := hpq
  refine (follow_landed h hu).bind fun hx => .ok ⟨rfl, fun r r' => ?_⟩
  rw [Pointer.follow_of_no_reference r (reference_upgradeResponse _ _),
    Pointer.follow_of_no_reference r' (reference_upgradeResponse _ _)]
  exact .ok (upgradeResponse_recased htypes hx)

theorem upgradeParameter_recased (h : Landed kept v w) :
    ParameterSame (upgradeParameter v) (upgradeParameter w) := by
  have hall : ∀ key ∈ ["name", "in", "description"], '/' ∉ key.toList := by decide
  exact parameterSame_upgraded (fun key hkey => h.getString? (hall key hkey))
    (h.getBool? (by decide)) (parameterSchema_landed h)

section Operations

variable {merged merged' : Assoc (String × String) Json} {types types' : List String}
variable {responses responses' : Assoc String Json}

theorem operationRecased_upgraded (h : Assoc.Alike (Landed kept) merged merged')
    (hkeyed : Keyed merged) (hkeyed' : Keyed merged') (hv : Landed kept v w)
    (htypes : TypesRecased kept types types')
    (hresponses : Assoc.Alike (fun u u' => ∀ r r',
      Jointly (BodyRecased kept) (Pointer.follow r u) (Pointer.follow r' u')) responses responses')
    (r r' : Json) : OperationRecased kept r r' [] [] (assembled v types merged responses)
      (assembled w types' merged' responses') where
  parameters := by
    have hkept := filter_of_forall₂ (p := fun p => !isBody p && !isForm p)
      (q := fun p => !isBody p && !isForm p) h fun p p' hp => by
        rw [isBody, isBody, isForm, isForm, hp.1]
    rw [parametersOf_assembled, parametersOf_assembled,
      mergeParameters_upgraded r (hkeyed.filter _),
      mergeParameters_upgraded r' (hkeyed'.filter _)]
    refine .ok ?_
    unfold Assoc.Alike
    rw [List.forall₂_map_left_iff, List.forall₂_map_right_iff]
    exact hkept.imp fun p p' hp => ⟨hp.1, upgradeParameter_recased hp.2⟩
  request := by
    rw [request_assembled, request_assembled]
    exact request?_recased h htypes r r'
  response := by
    rw [responses_assembled, responses_assembled]
    exact rel_imp (hresponses.get? "200") fun _ _ _ _ hu => hu r r'
  limit spot := by
    rw [get?_assembled v _ _ _ (by decide), get?_assembled w _ _ _ (by decide)]
    exact readLimit?_recased (hv.get? (by decide)) spot
  text key hkey := by
    have hall : ∀ key ∈ operationTexts, key ∈ copiedKeywords ∧ '/' ∉ key.toList := by decide
    rw [Json.getString?, Json.getString?, get?_assembled v _ _ _ (hall key hkey).1,
      get?_assembled w _ _ _ (hall key hkey).1]
    exact hv.getString? (hall key hkey).2
  tags := by
    rw [Json.getArray?, Json.getArray?, get?_assembled v _ _ _ (by decide),
      get?_assembled w _ _ _ (by decide)]
    exact hv.getArray? (by decide) (by decide)

end Operations

/-- Path items that hold operations only, of which the same is read, but for media types. -/
structure ItemRecased (kept : String → String → Prop) (item item' : Json) : Prop where
  methods : ∀ key, HttpMethod.ofName? key = none → item.get? key = none
  methods' : ∀ key, HttpMethod.ofName? key = none → item'.get? key = none
  members : ∀ r r', List.Forall₂ (MemberRecased kept r r' [] []) (item.asObject?.getD [])
    (item'.asObject?.getD [])

theorem ItemRecased.pathItemRecased {item item' : Json} (h : ItemRecased kept item item')
    (r r' : Json) :
    Jointly (PathItemRecased kept r r') (Pointer.follow r item) (Pointer.follow r' item') := by
  rw [Pointer.follow_of_no_reference r (h.methods _ (by decide)),
    Pointer.follow_of_no_reference r' (h.methods' _ (by decide))]
  refine .ok ?_
  unfold PathItemRecased parametersOf Json.getArray?
  rw [h.methods _ (by decide), h.methods' _ (by decide)]
  exact h.members r r'

/-- Upgraded operations that are named for methods and of which the same is read, but for media
types. -/
def UpgradedRecased (kept : String → String → Prop) (m m' : String × Json) : Prop :=
  (HttpMethod.ofName? m.1).isSome ∧ (HttpMethod.ofName? m'.1).isSome ∧
    ∀ r r', MemberRecased kept r r' [] [] m m'

/-- Members that are named for methods stand under the same keys. -/
theorem methods_recased {under : String} {members members' : List (String × Json)}
    (h : RecasedMembers kept under members members') :
    List.Forall₂ (fun p q => (HttpMethod.ofName? p.1).isSome ∧ p.1 = q.1 ∧ Landed kept p.2 q.2)
      (members.filter fun p => (HttpMethod.ofName? p.1).isSome)
      (members'.filter fun p => (HttpMethod.ofName? p.1).isSome) := by
  have hname : ∀ {key key' : String}, KeyRecased kept under key key' →
      key = key' ∨ HttpMethod.ofName? key = none ∧ HttpMethod.ofName? key' = none := by
    intro key key' hkey
    by_cases hne : key = key'
    · exact .inl hne
    · obtain ⟨-, hslash, hslash', -⟩ := hkey.slash hne
      exact .inr ⟨ofName?_of_slash hslash, ofName?_of_slash hslash'⟩
  refine forall₂_imp (filter_of_forall₂ h fun p q hpq => ?_) fun p hp q _ hpq => ?_
  · obtain heq | ⟨hnone, hnone'⟩ := hname hpq.1
    · rw [heq]
    · rw [hnone, hnone']
  · have hmethod := (List.mem_filter.1 hp).2
    obtain heq | ⟨hnone, -⟩ := hname hpq.1
    · exact ⟨hmethod, heq, .value hpq.2⟩
    · rw [hnone] at hmethod
      cases hmethod

section Older

variable {defaults defaults' : Defaults} (h : Landed kept root root')
  (hconsumes : TypesRecased kept defaults.consumes defaults'.consumes)
  (hproduces : TypesRecased kept defaults.produces defaults'.produces)

include h hconsumes hproduces

theorem upgradeOperation_recased (hshared : List.Forall₂ (Landed kept) shared shared')
    (hv : Landed kept v w) (key : String) :
    Jointly (fun u u' => ∀ r r', MemberRecased kept r r' [] [] (key, u) (key, u'))
      (upgradeOperation root defaults shared v) (upgradeOperation root' defaults' shared' w) := by
  unfold upgradeOperation
  refine (mergeParameters_landed h hshared (parametersOf_landed hv)).gives.bind
    fun {merged merged'} hmerged => ?_
  obtain ⟨hmerged, hgives, hgives'⟩ := hmerged
  have hproduced := mediaTypesOf_recased hv (show '/' ∉ "produces".toList by decide) (by decide)
    hproduces
  have hconsumed := mediaTypesOf_recased hv (show '/' ∉ "consumes".toList by decide) (by decide)
    hconsumes
  refine (upgradeResponses_recased h hv hproduced).bind fun hresponses => .ok fun r r' => ?_
  refine .operation key ?_ (operationRecased_upgraded hmerged (merges_of_mergeParameters hgives).1
    (merges_of_mergeParameters hgives').1 hv hconsumed hresponses r r')
  show ((assembled ..).get? _).isSome = ((assembled ..).get? _).isSome
  rw [responses_assembled, responses_assembled]
  rfl

theorem upgradePathItem_recased (hv : Landed kept v w) :
    Jointly (ItemRecased kept) (upgradePathItem root defaults v)
      (upgradePathItem root' defaults' w) := by
  have hparameters := parametersOf_landed hv
  obtain ⟨under, members, members', rfl, rfl, hmembers⟩ | ⟨hnone, hnone'⟩ := hv.objects
  · unfold upgradePathItem
    dsimp only
    refine (mapM_jointly (T := UpgradedRecased kept)
      ((methods_recased hmembers).imp fun p q hpq => ?_)).bind fun hall =>
        .ok ⟨fun key => get?_methods fun m hm => ?_, fun key => get?_methods fun m hm => ?_,
          fun r r' => hall.imp fun _ _ hm => hm.2.2 r r'⟩
    · obtain ⟨key, u⟩ := p
      obtain ⟨key', u'⟩ := q
      obtain ⟨hmethod, rfl, hu⟩ := hpq
      obtain ⟨_, _, _, rfl, rfl, -⟩ | ⟨hnone, hnone'⟩ := hu.objects
      · exact (upgradeOperation_recased h hconsumes hproduces hparameters hu key).bind fun ho =>
          .ok ⟨hmethod, hmethod, ho⟩
      · cases u with
        | obj => cases hnone
        | null | bool | num | str | arr =>
          cases u' with
          | obj => cases hnone'
          | null | bool | num | str | arr =>
            exact .ok ⟨hmethod, hmethod, fun _ _ => .other key rfl rfl⟩
    · obtain ⟨m', -, hR⟩ := exists_of_mem_left hall hm
      exact hR.1
    · obtain ⟨m', -, hR⟩ := exists_of_mem_right hall hm
      exact hR.2.1
  · cases v with
    | obj => cases hnone
    | null | bool | num | str | arr =>
      cases w with
      | obj => cases hnone'
      | null | bool | num | str | arr =>
        exact .ok ⟨fun _ _ => rfl, fun _ _ => rfl, fun _ _ => .nil⟩

end Older

theorem upgradePaths_recased (h : Landed kept root root') :
    Jointly (Assoc.Alike (ItemRecased kept)) (upgradePaths root) (upgradePaths root') := by
  unfold upgradePaths
  refine mapM_jointly (List.Forall₂.imp (fun p q hpq => ?_)
    ((h.getObject? (show '/' ∉ "paths".toList by decide)).alike (by decide)))
  obtain ⟨path, v⟩ := p
  obtain ⟨path', w⟩ := q
  obtain ⟨rfl, hv⟩ := hpq
  refine (follow_landed h hv).bind fun hitem => ?_
  exact (upgradePathItem_recased h (mediaTypes_recased (by decide) (h.get? (by decide)))
    (mediaTypes_recased (by decide) (h.get? (by decide))) hitem).bind fun hitem => .ok ⟨rfl, hitem⟩

/-- A document in the older layout is upgraded to one that is read in the same way. -/
theorem layoutRecased_of_upgrade (h : Landed kept root root') :
    Jointly (LayoutRecased kept) (upgrade root) (upgrade root') := by
  unfold upgrade
  refine (upgradePaths_recased h).bind fun {paths paths'} hpaths => .ok
    ⟨?_, ?_, fun key hkey => ?_, ?_⟩
  · exact hpaths.imp fun _ _ hitem => hitem.pathItemRecased _ _
  · have hschemas : ∀ r : Json, ((r.get? "definitions").getD (.obj [])).asObject?.getD [] =
        (r.getObject? "definitions").getD [] := fun r => by
      rw [Json.getObject?]
      cases r.get? "definitions" <;> rfl
    show Assoc.Alike _ (((root.get? "definitions").getD (.obj [])).asObject?.getD [])
      (((root'.get? "definitions").getD (.obj [])).asObject?.getD [])
    rw [hschemas, hschemas]
    exact ((h.getObject? (show '/' ∉ "definitions".toList by decide)).alike (by decide)).imp
      fun _ _ => Landed.readAlike
  · have hall : ∀ key ∈ ["title", "version", "description"], '/' ∉ key.toList := by decide
    have hinfo := h.get? (show '/' ∉ "info".toList by decide)
    show ((root.get? "info").getD (.obj [])).getString? key =
      ((root'.get? "info").getD (.obj [])).getString? key
    generalize root.get? "info" = u, root'.get? "info" = u' at hinfo
    cases hinfo with
    | none => rfl
    | some hu => exact (Landed.value hu).getString? (hall key hkey)
  · have htags := h.get? (show '/' ∉ "tags".toList by decide)
    show ((root.get? "tags").getD (.arr [])).asArray? =
      ((root'.get? "tags").getD (.arr [])).asArray?
    generalize root.get? "tags" = u, root'.get? "tags" = u' at htags
    cases htags with
    | none => rfl
    | some hu => exact hu.asArray? (by decide)

end Upgrade

/-! ### Both layouts -/

/-- Documents that are written with media types in other letters differ in these. -/
theorem ofJson_recased (h : Landed kept root root') :
    Jointly (Respelled (MediaType.Recased kept)) (ofJson root) (ofJson root') := by
  unfold ofJson
  rw [← h.isSome_get? (by decide), ← h.isSome_get? (by decide)]
  split
  · have hupgrade := Upgrade.layoutRecased_of_upgrade h
    generalize Upgrade.upgrade root = x, Upgrade.upgrade root' = y at hupgrade
    cases x with
    | error e => exact .error_left _ _
    | ok upgraded =>
      cases y with
      | error e => exact .error_right _ _
      | ok upgraded' => exact readLayout_recased (hupgrade _ _ rfl rfl) _
  · split
    · exact readLayout_recased (layoutRecased_of_landed h) _
    · exact .error_left _ _

/-- **Types, models and client of a document do not depend on the case of the letters in its media
types**, as long as the words are kept by which kinds of content are told. -/
theorem build_of_recased [MediaType.Reading] [MediaType.LawfulReading] [Text.Transliteration]
    {d d' : Document} (h : Json.Recased MediaType.SameWords "" root root')
    (hd : ofJson root = .ok d) (hd' : ofJson root' = .ok d') (options : Client.Options) :
    Projection.build d' options = Projection.build d options := by
  have hrespelled := ofJson_recased (.value h) d d' hd hd'
  rw [hrespelled.rest]
  exact Projection.build_respelled (forest_of_ofJson hd) (fun _ _ => ContentKind.of_recased)
    hrespelled.operations options

/-- A document with one operation, which answers with a text under each of these media types. -/
def answeringIn (types : List String) : Json :=
  let content := types.map fun type => (type, Json.obj [("schema", .obj [("type", .str "string")])])
  .obj [("openapi", .str "3.0.0"), ("paths", .obj [("/pets", .obj [("get", .obj [("responses",
    .obj [("200", .obj [("content", .obj content)])])])])])]

theorem recased_answeringIn {types types' : List String} (hslash : ∀ t ∈ types, '/' ∈ t.toList)
    (hapart : types.Pairwise fun s t => ¬Text.sameLetters s t)
    (h : List.Forall₂ (MediaType.Recased kept) types types') :
    Json.Recased kept "" (answeringIn types) (answeringIn types') := by
  have hone : ∀ {under key : String} {v w : Json}, under ≠ "content" → Json.Recased kept key v w →
      Json.Recased kept under (.obj [(key, v)]) (.obj [(key, w)]) := fun hunder h =>
    RecasedMembers.object (.cons ⟨.inl rfl, h⟩ .nil) fun hcontent => absurd hcontent hunder
  refine RecasedMembers.object (.cons ⟨.inl rfl, .same _ _⟩ (.cons ⟨.inl rfl, ?_⟩ .nil))
    fun hcontent => absurd hcontent (by decide)
  refine hone (by simp) (hone (by simp) (hone (by simp) (hone (by simp) (hone (by simp)
    (RecasedMembers.object ?_ fun _ => ?_)))))
  · unfold RecasedMembers
    rw [List.forall₂_map_left_iff, List.forall₂_map_right_iff]
    exact forall₂_imp h fun t ht _ _ htt => ⟨.inr ⟨rfl, hslash t ht, htt⟩, .same _ _⟩
  · rw [List.pairwise_map]
    refine hapart.imp ?_
    intro s t hne _
    exact hne

theorem build_of_recased_answering :
    let root := answeringIn ["Application/vnd.pets+json", "TEXT/Plain"]
    let root' := answeringIn ["application/VND.pets+json", "text/plain"]
    Json.Recased MediaType.SameWords "" root root' ∧ ∃ d d', ofJson root = .ok d ∧
      ofJson root' = .ok d' ∧ Projection.build d' {} = Projection.build d {} := by
  intro root root'
  have h : Json.Recased MediaType.SameWords "" root root' := by
    refine recased_answeringIn (by decide +kernel) (by decide +kernel)
      (.cons (.inr ⟨by decide +kernel, ?_⟩) (.cons (.inr ⟨by decide +kernel, ?_⟩) .nil))
    all_goals constructor <;> decide +kernel
  have hrun : (ofJson root >>= fun _ => ofJson root').isOk = true := by decide +kernel
  cases hd : ofJson root with
  | error e =>
    rw [hd] at hrun
    cases hrun
  | ok d =>
    cases hd' : ofJson root' with
    | error e =>
      rw [hd, hd'] at hrun
      cases hrun
    | ok d' => exact ⟨h, d, d', rfl, rfl, build_of_recased h hd hd' {}⟩

/-- Where it is not, they do: the words are compared as they are written. -/
theorem not_build_of_recased :
    ¬ ∀ (root root' : Json) (d d' : Document), Json.Recased (fun _ _ => True) "" root root' →
      ofJson root = .ok d → ofJson root' = .ok d' → ∀ options,
        (Projection.build d' options).map (fun p => (p.client, p.models)) =
          (Projection.build d options).map fun p => (p.client, p.models) := by
  intro hclaim
  have hrun : (do
      let d ← ofJson (answeringIn ["application/JSON"])
      let d' ← ofJson (answeringIn ["application/json"])
      let p ← Projection.build d {}
      let p' ← Projection.build d' {}
      pure (decide (p.client.actions.map Action.returnType = ["any"] ∧
        p'.client.actions.map Action.returnType = ["string"]))) = .ok true := by decide +kernel
  obtain ⟨d, hd, hrun⟩ := except_bind_eq_ok.1 hrun
  obtain ⟨d', hd', hrun⟩ := except_bind_eq_ok.1 hrun
  obtain ⟨p, hp, hrun⟩ := except_bind_eq_ok.1 hrun
  obtain ⟨p', hp', hrun⟩ := except_bind_eq_ok.1 hrun
  obtain ⟨hany, htext⟩ := of_decide_eq_true (Except.ok.inj hrun)
  have h : Json.Recased (fun _ _ => True) "" (answeringIn ["application/JSON"])
      (answeringIn ["application/json"]) :=
    recased_answeringIn (by decide +kernel) (by decide +kernel)
      (.cons (.inr ⟨by decide +kernel, trivial⟩) .nil)
  have hsame := hclaim _ _ d d' h hd hd' {}
  rw [hp, hp'] at hsame
  have hclient : p'.client = p.client := congrArg Prod.fst (Except.ok.inj hsame)
  rw [hclient, hany] at htext
  exact absurd htext (by decide)

end Document

end TypedClient
