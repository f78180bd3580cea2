import TypedClient.Proofs.Document.RedirectedLayout
import TypedClient.Proofs.Document.Unread

/-! Reading documents in either layout, with and without another name for a schema. Upgraded, two
documents in the older layout are read like documents of the newer one: the schemas that are put
together on the way are the same once references are put back. -/

namespace TypedClient

namespace Schema

open Json Building

variable {a b : String}

/-- The keywords of the object that form fields are put together to. -/
def formKeywords (members : Assoc String Json) (names : List Json) : Assoc String Json :=
  [("type", .str "object"), ("properties", .obj members), ("required", .arr names)]

theorem classify_form (members : Assoc String Json) (names : List Json) (location : String) :
    classify (.obj (formKeywords members names)) location =
      classifyMembers members location >>= fun properties =>
        add { kind := .object { properties, required := names.filterMap asString? } } := by
  have hdeclared : declaredType (formKeywords members names) location =
      .ok (some "object", false) := rfl
  have hhints : classifyHints (formKeywords members names) location = pure {} := by
    rw [classifyHints]
    rfl
  have hobject : classifyObject (formKeywords members names) location =
      classifyMembers members location >>= fun properties =>
        pure { properties, required := names.filterMap asString? } := by
    unfold classifyObject
    rfl
  have hkind : classifyKind (formKeywords members names) (some "object") location =
      SchemaKind.object <$> classifyObject (formKeywords members names) location := by
    unfold classifyKind
    rfl
  rw [classify, hdeclared, hhints]
  simp only [Building.ofExcept, pure_bind, hkind, hobject, map_eq_pure_bind, bind_assoc]
  rfl

theorem shadows_members {members members' : Assoc String Json}
    (h : Assoc.Alike (Document.Shadowed a b) members members') (location : String) :
    Shadows a b id (classifyMembers members location) (classifyMembers members' location) := by
  induction h with
  | nil =>
    rw [classifyMembers]
    exact .pure rfl
  | @cons p p' _ _ hp _ ih =>
    obtain ⟨name, v⟩ := p
    obtain ⟨name', v'⟩ := p'
    obtain ⟨rfl, hv⟩ := hp
    rw [classifyMembers, classifyMembers]
    exact (hv _).next fun _ => ih.next fun _ => .pure rfl

end Schema

namespace Document

open Json

variable {late : Failure → Prop} {a b : String} {R : String → String → Prop}
variable {root root' v v' : Json} {shared shared' : List Json}

/-! ### The older layout -/

namespace Upgrade

theorem mediaTypes_redirected {key : String} (hkey : key ∉ literalKeys) {u u' : Option Json}
    (h : Option.Rel (Redirected R key) u u') : mediaTypes u = mediaTypes u' := by
  have htexts : ((u.bind asArray?).getD []).filterMap asString? =
      ((u'.bind asArray?).getD []).filterMap asString? := by
    cases h with
    | none => rfl
    | @some x x' hx =>
      have harray := hx.asArray? hkey
      rw [Option.bind_some, Option.bind_some]
      generalize x.asArray? = items, x'.asArray? = items' at harray
      cases harray with
      | none => rfl
      | some hitems => exact texts_redirected hitems
  rw [mediaTypes, mediaTypes, htexts]

theorem mediaTypesOf_near (h : Near R v v') {key : String} (hkey : key ∈ readKeys)
    (hliteral : key ∉ literalKeys) (inherited : List String) :
    mediaTypesOf v key inherited = mediaTypesOf v' key inherited := by
  have hget := h.get? hkey
  unfold mediaTypesOf
  generalize v.get? key = u, v'.get? key = u' at hget
  cases hget with
  | none => rfl
  | some hu => exact mediaTypes_redirected hliteral (.some hu)

theorem contentOf_shadowed (types : List String) {s s' : Json} (h : Shadowed a b s s') :
    ContentShadowed a b ((contentOf types s).asObject?.getD [])
      ((contentOf types s').asObject?.getD []) := by
  refine Assoc.Alike.putAll .nil ?_
  unfold Assoc.Alike
  rw [List.forall₂_map_left_iff, List.forall₂_map_right_iff, List.forall₂_same]
  exact fun _ _ => ⟨rfl, h⟩

/-- Form fields of which the same is read, but for the references in their schemas. -/
structure FieldShadowed (a b : String) (v v' : Json) : Prop where
  required : v.getBool? "required" = v'.getBool? "required"
  schema : Shadowed a b (parameterSchema v) (parameterSchema v')

theorem formRequest_shadowed {fields fields' : Assoc (String × String) Json}
    (h : Assoc.Alike (FieldShadowed a b) fields fields') :
    BodyShadowed a b (.obj [("content", formRequest fields)])
      (.obj [("content", formRequest fields')]) := by
  have hproperties : Assoc.Alike (Shadowed a b)
      (Assoc.ofPairs (fields.map fun p => (p.1.1, parameterSchema p.2)))
      (Assoc.ofPairs (fields'.map fun p => (p.1.1, parameterSchema p.2))) := by
    refine Assoc.Alike.putAll .nil ?_
    unfold Assoc.Alike
    rw [List.forall₂_map_left_iff, List.forall₂_map_right_iff]
    refine List.Forall₂.imp (fun p p' hp => ?_) h
    have hname : p.1.1 = p'.1.1 := by rw [hp.1]
    exact ⟨hname, hp.2.schema⟩
  have hrequired : ((fields.filter fun p => (p.2.getBool? "required").getD false).map
        fun p => Json.str p.1.1) =
      (fields'.filter fun p => (p.2.getBool? "required").getD false).map
        fun p => Json.str p.1.1 := by
    refine map_eq_of_forall₂ (filter_of_forall₂ h fun p p' hp => ?_) fun p p' hp => ?_
    · rw [hp.2.required]
    · rw [hp.1]
  refine .cons ⟨rfl, fun location => ?_⟩ .nil
  show Building.Shadows a b id (Schema.classify (.obj (Schema.formKeywords _ _)) location)
    (Schema.classify (.obj (Schema.formKeywords _ _)) location)
  rw [Schema.classify_form, Schema.classify_form, hrequired]
  exact (Schema.shadows_members hproperties location).next fun _ => .add rfl

section Parts

variable (hR : Schema.PutsBack R a b)

include hR

theorem parameterSchema_near (h : Near R v v') :
    Shadowed a b (parameterSchema v) (parameterSchema v') := by
  cases h with
  | @object fields fields' h =>
    have hget := h.get? (show "schema" ∈ readKeys by decide)
    rw [parameterSchema_obj, parameterSchema_obj]
    generalize Assoc.get? fields "schema" = u, Assoc.get? fields' "schema" = u' at hget
    cases hget with
    | some hu => exact Schema.shadows_classify hR hu.near
    | none =>
      exact Schema.shadows_classify hR
        (.object (h.filter fun key => !parameterKeywords.contains key))
  | other hv hv' =>
    rw [parameterSchema_of_no_object hv, parameterSchema_of_no_object hv']
    exact Schema.shadows_classify hR (.other rfl rfl)

theorem bodyRequest_near (types : List String) (h : Near R v v') :
    BodyShadowed a b (bodyRequest types v) (bodyRequest types v') :=
  contentOf_shadowed types (schema_near hR h)

theorem upgradeResponse_near (types : List String) (h : Near R v v') :
    BodyShadowed a b (upgradeResponse types v) (upgradeResponse types v') := by
  have hget := h.get? (show "schema" ∈ readKeys by decide)
  unfold BodyShadowed
  rw [Json.getObject?, Json.getObject?, get?_upgradeResponse, get?_upgradeResponse,
    if_neg (by decide), if_pos rfl, if_neg (by decide), if_pos rfl]
  generalize v.get? "schema" = u, v'.get? "schema" = u' at hget
  cases hget with
  | none => exact .nil
  | some hu => exact contentOf_shadowed types (Schema.shadows_classify hR hu.near)

theorem request?_near {merged merged' : Assoc (String × String) Json}
    (h : Assoc.Alike (Near R) merged merged') (types : List String) (r r' : Json) :
    BodiesLed late a b r r' (request? types merged) (request? types merged') := by
  refine rel_imp (request?_rel (Q := BodyShadowed a b) (fun _ _ => bodyRequest_near hR types)
    (fun _ _ hfields => ?_) h) fun v _ v' _ hv => ?_
  · exact formRequest_shadowed (hfields.imp fun _ _ h =>
      ⟨h.getBool? (by decide), parameterSchema_near hR h⟩)
  · rw [Pointer.follow_of_no_reference r hv.2.1, Pointer.follow_of_no_reference r' hv.2.2]
    exact .ok hv.1

theorem upgradeParameter_near (h : Near R v v') :
    ParameterShadowed a b (upgradeParameter v) (upgradeParameter v') := by
  have htext : ∀ key ∈ ["name", "in", "description"],
      (upgradeParameter v).getString? key = (upgradeParameter v').getString? key := by
    intro key hkey
    have hall : ∀ key ∈ ["name", "in", "description"],
        key ∈ ["name", "in", "required", "description"] ∧ key ∈ readKeys ∧ key ≠ "$ref" := by
      decide
    obtain ⟨hkept, hlayout, hreference⟩ := hall key hkey
    rw [Json.getString?, Json.getString?, get?_upgradeParameter_of_mem hkept,
      get?_upgradeParameter_of_mem hkept]
    exact h.getString? hlayout hreference
  refine ⟨htext _ (by decide), htext _ (by decide), ?_, htext _ (by decide), ?_⟩
  · rw [Json.getBool?, Json.getBool?, get?_upgradeParameter_of_mem (by decide),
      get?_upgradeParameter_of_mem (by decide)]
    exact h.getBool? (by decide)
  · rw [schemaOf?_upgradeParameter, schemaOf?_upgradeParameter]
    exact .some (parameterSchema_near hR h)

theorem operationLed_upgraded {merged merged' : Assoc (String × String) Json}
    (h : Assoc.Alike (Near R) merged merged') (hkeyed : Keyed merged) (hkeyed' : Keyed merged')
    (hv : Near R v v') (types : List String) {responses responses' : Assoc String Json}
    (hresponses : Assoc.Alike (fun u u' => ∀ r r',
      Leads late (BodyShadowed a b) (Pointer.follow r u) (Pointer.follow r' u')) responses responses')
    (r r' : Json) : OperationLed late a b r r' [] [] (assembled v types merged responses)
      (assembled v' types merged' responses') where
  parameters := by
    have hkept := filter_of_forall₂ (p := fun p => !isBody p && !isForm p)
      (q := fun p => !isBody p && !isForm p) h fun p p' hp => by
        rw [isBody, isBody, isForm, isForm, hp.1]
    rw [parametersOf_assembled, parametersOf_assembled,
      mergeParameters_upgraded r (hkeyed.filter _),
      mergeParameters_upgraded r' (hkeyed'.filter _)]
    refine .ok ?_
    unfold Assoc.Alike
    rw [List.forall₂_map_left_iff, List.forall₂_map_right_iff]
    exact hkept.imp fun p p' hp => ⟨hp.1, upgradeParameter_near hR hp.2⟩
  request := by
    rw [request_assembled, request_assembled]
    exact request?_near hR h types r r'
  response := by
    rw [responses_assembled, responses_assembled]
    exact rel_imp (hresponses.get? "200") fun _ _ _ _ hu => hu r r'
  limit spot := by
    rw [get?_assembled v _ _ _ (by decide), get?_assembled v' _ _ _ (by decide)]
    exact readLimit?_redirected (hv.get? (by decide)) spot
  text key hkey := by
    have hall : ∀ key ∈ operationTexts,
        key ∈ copiedKeywords ∧ key ∈ readKeys ∧ key ≠ "$ref" := by decide
    rw [Json.getString?, Json.getString?, get?_assembled v _ _ _ (hall key hkey).1,
      get?_assembled v' _ _ _ (hall key hkey).1]
    exact hv.getString? (hall key hkey).2.1 (hall key hkey).2.2
  tags := by
    rw [Json.getArray?, Json.getArray?, get?_assembled v _ _ _ (by decide),
      get?_assembled v' _ _ _ (by decide)]
    exact texts_redirected (hv.getArray? (by decide) (by decide))

end Parts

/-- Path items that hold operations only, of which the same is read. -/
structure ItemLed (late : Failure → Prop) (a b : String) (item item' : Json) : Prop where
  methods : ∀ key, HttpMethod.ofName? key = none → item.get? key = none
  methods' : ∀ key, HttpMethod.ofName? key = none → item'.get? key = none
  members : ∀ r r', List.Forall₂ (MemberLed late a b r r' [] []) (item.asObject?.getD [])
    (item'.asObject?.getD [])

theorem ItemLed.pathItemLed {item item' : Json} (h : ItemLed late a b item item') (r r' : Json) :
    Leads late (PathItemLed late a b r r') (Pointer.follow r item) (Pointer.follow r' item') := by
  rw [Pointer.follow_of_no_reference r (h.methods _ (by decide)),
    Pointer.follow_of_no_reference r' (h.methods' _ (by decide))]
  refine .ok ?_
  unfold PathItemLed methodsOf parametersOf Json.getArray?
  rw [h.methods _ (by decide), h.methods' _ (by decide)]
  exact filter_of_forall₂ (h.members r r') fun m m' hm => by rw [hm.key_eq]

/-- Upgraded operations that are named for methods and of which the same is read. -/
def UpgradedLed (late : Failure → Prop) (a b : String) (m m' : String × Json) : Prop :=
  (HttpMethod.ofName? m.1).isSome ∧ (HttpMethod.ofName? m'.1).isSome ∧
    ∀ r r', MemberLed late a b r r' [] [] m m'

section Older

variable (hR : Schema.PutsBack R a b)
variable (hfollow : ∀ v v', Near R v v' →
  Leads late (Near R) (Pointer.follow root v) (Pointer.follow root' v'))

include hR hfollow

/-- Upgraded responses are no references any more. -/
theorem upgradeResponses_near (hv : Near R v v') (types : List String) :
    Leads late (Assoc.Alike fun u u' => ∀ r r',
        Leads late (BodyShadowed a b) (Pointer.follow r u) (Pointer.follow r' u'))
      (upgradeResponses root types v) (upgradeResponses root' types v') := by
  have hresponses := hv.getObject? (show "responses" ∈ readKeys by decide)
  refine mapM_leads (List.Forall₂.imp (fun p p' hp => ?_) hresponses)
  obtain ⟨code, u⟩ := p
  obtain ⟨code', u'⟩ := p'
  obtain ⟨rfl, hu⟩ := hp
  refine (hfollow _ _ hu.near).bind fun hx => .ok ⟨rfl, fun r r' => ?_⟩
  rw [Pointer.follow_of_no_reference r (reference_upgradeResponse _ _),
    Pointer.follow_of_no_reference r' (reference_upgradeResponse _ _)]
  exact .ok (upgradeResponse_near hR types hx)

theorem upgradeOperation_near (defaults : Defaults)
    (hshared : List.Forall₂ (Near R) shared shared') (hv : Near R v v') (key : String) :
    Leads late (fun u u' => ∀ r r', MemberLed late a b r r' [] [] (key, u) (key, u'))
      (upgradeOperation root defaults shared v) (upgradeOperation root' defaults shared' v') := by
  unfold upgradeOperation
  rw [mediaTypesOf_near hv (show "consumes" ∈ readKeys by decide) (by decide),
    mediaTypesOf_near hv (show "produces" ∈ readKeys by decide) (by decide)]
  refine (mergeParameters_near hfollow hshared (parametersOf_near hv)).gives.bind
    fun {merged merged'} hmerged => ?_
  obtain ⟨hmerged, hgives, hgives'⟩ := hmerged
  refine (upgradeResponses_near hR hfollow hv _).bind fun hresponses => .ok fun r r' => ?_
  refine .operation key ?_ (operationLed_upgraded hR hmerged (merges_of_mergeParameters hgives).1
    (merges_of_mergeParameters hgives').1 hv _ hresponses r r')
  show ((assembled ..).get? _).isSome = ((assembled ..).get? _).isSome
  rw [responses_assembled, responses_assembled]
  rfl

theorem upgradePathItem_near (defaults : Defaults) (hv : Near R v v') :
    Leads late (ItemLed late a b) (upgradePathItem root defaults v)
      (upgradePathItem root' defaults v') := by
  have hparameters := parametersOf_near hv
  cases hv with
  | object hmembers =>
    unfold upgradePathItem
    dsimp only
    refine (mapM_leads (T := UpgradedLed late a b)
      (forall₂_imp hmembers.methods fun m hm m' _ hmm => ?_)).bind fun hall =>
        .ok ⟨fun key => get?_methods fun m hm => ?_, fun key => get?_methods fun m hm => ?_,
          fun r r' => hall.imp fun _ _ hm => hm.2.2 r r'⟩
    · obtain ⟨key, u⟩ := m
      obtain ⟨key', u'⟩ := m'
      obtain ⟨rfl, hu⟩ := hmm
      have hmethod := (List.mem_filter.1 hm).2
      have hnear := hu.near
      have hoperation := upgradeOperation_near hR hfollow defaults hparameters hnear key
      cases hnear with
      | object => exact hoperation.bind fun ho => .ok ⟨hmethod, hmethod, ho⟩
      | other hnone hnone' =>
        cases u with
        | obj => cases hnone
        | null | bool | num | str | arr =>
          cases u' with
          | obj => cases hnone'
          | null | bool | num | str | arr =>
            exact .ok ⟨hmethod, hmethod, fun _ _ => .other key rfl rfl⟩
    · obtain ⟨m', -, hR⟩ := exists_of_mem_left hall hm
      exact hR.1
    · obtain ⟨m', -, hR⟩ := exists_of_mem_right hall hm
      exact hR.2.1
  | other hnone hnone' =>
    cases v with
    | obj => cases hnone
    | null | bool | num | str | arr =>
      cases v' with
      | obj => cases hnone'
      | null | bool | num | str | arr =>
        exact .ok ⟨fun _ _ => rfl, fun _ _ => rfl, fun _ _ => .nil⟩

theorem upgradePaths_near (h : Near R root root') :
    Leads late (Assoc.Alike (ItemLed late a b)) (upgradePaths root) (upgradePaths root') := by
  unfold upgradePaths
  rw [mediaTypes_redirected (by decide) (h.get? (show "consumes" ∈ readKeys by decide)),
    mediaTypes_redirected (by decide) (h.get? (show "produces" ∈ readKeys by decide))]
  refine mapM_leads (List.Forall₂.imp (fun p p' hp => ?_)
    (h.getObject? (show "paths" ∈ readKeys by decide)))
  obtain ⟨path, v⟩ := p
  obtain ⟨path', v'⟩ := p'
  obtain ⟨rfl, hv⟩ := hp
  refine (hfollow _ _ hv.near).bind fun hitem => ?_
  exact (upgradePathItem_near hR hfollow _ hitem).bind fun hitem => .ok ⟨rfl, hitem⟩

/-- A document in the older layout with another name for a schema is upgraded to one in the newer
layout with that name. -/
theorem upgrade_led {s : String}
    (h : Extended R (a, .obj [("$ref", .str s)]) ["definitions"] root root') :
    Leads late (LayoutLed late a b) (upgrade root) (upgrade root') := by
  have hnear := h.near (by decide)
  unfold upgrade
  refine (upgradePaths_near hR hfollow hnear).bind fun hpaths => .ok ⟨?_, ⟨s, ?_⟩, ?_⟩
  · exact hpaths.imp fun _ _ hitem => hitem.pathItemLed _ _
  · obtain ⟨schemas, schemas', hs, hs', hschemas⟩ := h.get?_under
    rw [hs, hs']
    exact hschemas.oneMore.1.imp fun _ _ => Schema.shadows_classify hR
  · have htags : ∀ r : Json, (((r.get? "tags").getD (.arr [])).asArray?).getD [] =
        (r.getArray? "tags").getD [] := fun r => by
      rw [Json.getArray?]
      cases r.get? "tags" <;> rfl
    show ((((root.get? "tags").getD (.arr [])).asArray?).getD []).filterMap readTag? =
      ((((root'.get? "tags").getD (.arr [])).asArray?).getD []).filterMap readTag?
    rw [htags, htags]
    exact tags_near hnear

end Older

end Upgrade

/-! ### Both layouts -/

/-- Where a document can be read, the document with another name for a schema can be read as well
and says nothing else, unless a chain of references has become too long. -/
theorem ofJson_led {s : String} (hR : Schema.PutsBack R a b)
    (hfollow : ∀ v v', Near R v v' →
      Leads late (Near R) (Pointer.follow root v) (Pointer.follow root' v'))
    (h : Extended R (a, .obj [("$ref", .str s)]) (schemasPath root) root root') :
    Leads late (Led a b) (ofJson root) (ofJson root') := by
  have hdeclared : ∀ {key : String}, key ∈ readKeys →
      (root.get? key).isSome = (root'.get? key).isSome := by
    intro key hkey
    unfold schemasPath at h
    split at h <;> exact (h.near (by decide)).isSome_get? hkey
  unfold schemasPath at h
  unfold ofJson
  rw [← hdeclared (show "swagger" ∈ readKeys by decide),
    ← hdeclared (show "openapi" ∈ readKeys by decide)]
  split at h
  · next hold =>
    rw [if_pos hold, if_pos hold]
    have hupgrade := Upgrade.upgrade_led hR hfollow h
    generalize Upgrade.upgrade root = x, Upgrade.upgrade root' = y at hupgrade
    cases hupgrade with
    | error e => exact .error e _
    | ok hled => exact readLayout_led hled _
    | late _ hlate => exact .of_late _ hlate
  · next hnew =>
    rw [if_neg hnew, if_neg hnew]
    split
    · exact readLayout_led (layoutLed_of_extended hR hfollow h) _
    · exact .error _ _

theorem namedSchemas_extended {added : String × Json}
    (h : Extended R added (schemasPath root) root root') :
    Assoc.OneMore (Near R) added (namedSchemas root) (namedSchemas root') ∧
      (Assoc.keys (namedSchemas root')).Nodup := by
  unfold schemasPath at h
  unfold namedSchemas
  split at h
  · next hold =>
    have hnear := h.near (by decide)
    rw [if_pos hold, if_pos (hnear.isSome_get? (show "swagger" ∈ readKeys by decide) ▸ hold)]
    obtain ⟨schemas, schemas', hs, hs', hschemas⟩ := h.get?_under
    rw [Json.getObject?, Json.getObject?, hs, hs']
    exact hschemas.oneMore
  · next hnew =>
    have hnear := h.near (by decide)
    rw [if_neg hnew, if_neg (hnear.isSome_get? (show "swagger" ∈ readKeys by decide) ▸ hnew)]
    exact schemasOf_extended h

/-! ### Another name for a schema -/

/-- The second document declares another name for a schema, as a reference to it and at any place
among the named schemas; any references to the schema go to the other name. -/
def AddsAlias (root root' : Json) (fresh target : String) : Prop :=
  ∃ s, Pointer.Names (schemasPath root) target s ∧
    Extended (Pointer.Redirects root (schemasPath root) fresh target)
      (fresh, .obj [("$ref", .str s)]) (schemasPath root) root root'

variable {fresh target : String} {d d' : Document}

theorem putsBack_redirects {path : List String} :
    Schema.PutsBack (Pointer.Redirects root path fresh target) fresh target := by
  intro s t h
  cases h with
  | kept => rfl
  | moved hname hname' =>
    rw [hname, hname', renamed_self]
    exact ite_self target

/-- Where nothing refers to the other name, there are no references to put back. -/
theorem redirect_of_unused (hunused : ∀ x, ¬ d.Refers x fresh) :
    d.arena.redirect fresh target = d.arena := by
  have hnodes : d.arena.nodes.map (SchemaNode.redirect fresh target) = d.arena.nodes := by
    rw [Array.map_congr_left fun n hn => SchemaNode.redirect_of_ne fun hkind => ?_, Array.map_id']
    obtain ⟨x, hx, rfl⟩ := Array.mem_iff_getElem.1 hn
    refine hunused x ?_
    rw [Refers, Arena.get, Arena.get?, Array.getElem?_eq_getElem hx]
    exact hkind
  rw [Arena.redirect, hnodes]

theorem aliased_of_led (h : Led fresh target d d') (hd : d.WellFormed) (hd' : d'.WellFormed)
    (hunused : ∀ x, ¬ d.Refers x fresh)
    (hkeys : (Assoc.keys d'.schemas).Nodup) (hschema : (Assoc.get? d.schemas target).isSome)
    (halias : d'.IsAlias fresh target) :
    d.Aliased d' fresh target (Paired d (d'.unaliased fresh target)) := by
  have hback : Building.back fresh target (d.arena, d'.arena) =
      (d.arena, (d'.unaliased fresh target).arena) :=
    congrArg (·, (d'.unaliased fresh target).arena) (redirect_of_unused hunused)
  obtain ⟨⟨id, hschemas⟩, hoperations, htags⟩ := h
  rw [hback] at hschemas hoperations
  have hwell : (d'.unaliased fresh target).WellFormed := wellFormed_unaliased hd'
  have hsame := hschemas.filter_ne hkeys
  have hkeys' : (Assoc.keys (d'.unaliased fresh target).schemas).Nodup :=
    (List.filter_sublist.map Prod.fst).nodup hkeys
  have hreread : Reread d (d'.unaliased fresh target) :=
    ⟨covers_of_forall₂ hsame, covers_of_forall₂ (hoperations.imp fun _ _ ho => ho.matches),
      hsame.keys ▸ hkeys', hkeys'⟩
  exact {
    isFresh := Assoc.get?_eq_none_iff.2 (hschemas.not_mem_keys hkeys)
    isSchema := hschema
    isAlias := halias
    agrees := ⟨hreread.alike hd hwell, forall₂_imp hoperations fun o ho o' ho' hagrees =>
      hagrees.imp (paired_of_operation hd hwell ho ho'), htags⟩ }

/-- A document with another name for a schema says nothing else than it did, if it can be read: a
chain of references by the schema may have become too long. -/
theorem aliased_of_addsAlias (h : AddsAlias root root' fresh target) (hd : ofJson root = .ok d)
    (hschema : (Assoc.get? d.schemas target).isSome) (hunused : ∀ x, ¬ d.Refers x fresh) :
    (ofJson root' = .error Pointer.tooLong ∧
        Pointer.Strained root (schemasPath root) target) ∨
      ∃ d', ofJson root' = .ok d' ∧
        d.Aliased d' fresh target (Paired d (d'.unaliased fresh target)) := by
  obtain ⟨s, hs, hextended⟩ := h
  have hpath : schemasPath root ⊆ layoutKeys := by
    unfold schemasPath
    split <;> decide
  have hled := ofJson_led putsBack_redirects
    (fun _ _ => Pointer.follow_leads hextended hpath hs) hextended
  rw [hd] at hled
  generalize hd' : ofJson root' = r at hled
  cases hled with
  | late _ hlate => exact .inl ⟨congrArg Except.error hlate.1, hlate.2⟩
  | @ok _ d' hled =>
    obtain ⟨hschemas, hkeys⟩ := namedSchemas_extended hextended
    rw [(holds_of_ofJson hd').keys] at hkeys
    obtain ⟨id, hid, location, hgave⟩ := holds_named hd' (hschemas.get?_added
      ((holds_of_ofJson hd').keys ▸ hkeys))
    rw [Schema.classify_reference] at hgave
    have hrefers : d'.Refers id target := by
      rw [Refers, hgave.of_add, hs.name]
    exact .inr ⟨d', rfl, aliased_of_led hled (wellFormed_of_ofJson hd) (wellFormed_of_ofJson hd')
      hunused hkeys hschema ⟨id, hid, hrefers⟩⟩

end Document

end TypedClient
