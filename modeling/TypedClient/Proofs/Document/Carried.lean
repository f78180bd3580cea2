import TypedClient.Proofs.Document.Merged

/-! The parameters of a document in the older layout, in the operations that are read of it. The
upgrade follows and merges the parameters of an operation; those that stay parameters are merged
once more by the reader, which finds them as they were, and body and form parameters are read as the
request that they are rewritten to. -/

namespace TypedClient

/-! ### Pairs with distinct keys -/

namespace Assoc

variable {κ α : Type} [DecidableEq κ]

theorem putAll_of_nodup {m new : Assoc κ α} (h : (keys m ++ keys new).Nodup) :
    putAll m new = m ++ new := by
  induction new generalizing m with
  | nil => simp [putAll]
  | cons p new ih =>
    have hkeys : keys m ++ keys (p :: new) = keys (m ++ [p]) ++ keys new := by simp [keys]
    have hnew : p.1 ∉ keys m := fun hm =>
      (List.nodup_append.1 h).2.2 p.1 hm p.1 List.mem_cons_self rfl
    rw [putAll, List.foldl_cons, ← putAll, put_of_get?_none (get?_eq_none_iff.2 hnew),
      ih (hkeys ▸ h), List.append_assoc, List.singleton_append]

theorem ofPairs_of_nodup {pairs : List (κ × α)} (h : (keys pairs).Nodup) : ofPairs pairs = pairs :=
  putAll_of_nodup h

end Assoc

namespace Document

open Json Building

/-! ### What is carried over -/

/-- The texts of a list, where a value is one. -/
def namedTypes (v : Option Json) : List String :=
  match v with
  | some (.arr vs) => vs.filterMap fun
    | .str s => some s
    | _ => none
  | _ => []

/-- The media types that an operation takes: its own, or those of the document if it has no list,
and JSON if there are none. -/
def takenTypes (root op : Json) : List String :=
  match namedTypes ((op.get? "consumes").or (root.get? "consumes")) with
  | [] => ["application/json"]
  | types => types

/-- The schema of a parameter in the older layout: its own, or else what is left of it without the
keywords that parameters have beside those of schemas. -/
inductive SaysSchema : Json → Json → Prop
  | own {fields : Assoc String Json} {schema : Json}
      (h : Assoc.get? fields "schema" = some schema) : SaysSchema (.obj fields) schema
  | keywords {fields : Assoc String Json} (hnone : Assoc.get? fields "schema" = none) :
      SaysSchema (.obj fields) (.obj (fields.filter fun p => p.1 ∉
        ["name", "in", "required", "description", "collectionFormat", "allowEmptyValue"]))

/-- The listed parameters with this place. -/
def withPlace (place : String) (vs : List Json) : List Json := vs.filter fun v =>
  textAt v "in" = place

/-- The listed parameters that are neither a body nor a field of a form. -/
def ofRequestLine (vs : List Json) : List Json := vs.filter fun v =>
  textAt v "in" ≠ "body" ∧ textAt v "in" ≠ "formData"

/-- Whether a listed parameter says that it is required. -/
def saysRequired (v : Json) : Bool :=
  match v.get? "required" with
  | some (.bool b) => b
  | _ => false

/-- An object with one property for each field of a form. -/
structure IsForm (a : Arena) (fields : List Json) (shape : ObjectShape) : Prop where
  properties : List.Forall₂ (fun v p => p.1 = textAt v "name" ∧
    ∃ schema, SaysSchema v schema ∧ a.Holds schema p.2) fields shape.properties
  required : shape.required = (fields.filter saysRequired).map fun v => textAt v "name"

/-- What an operation has of the parameters listed for it, where it takes these media types. -/
structure Carries (a : Arena) (types : List String) (listed : List Json) (o : Operation) :
    Prop where
  /-- All that are neither a body nor form fields stay parameters. -/
  parameters : List.Forall₂ (IsParameter SaysSchema a) (ofRequestLine listed) o.parameters
  /-- The schema of a body is that of the request, once for each media type. -/
  body : ∀ v, withPlace "body" listed = [v] → ∃ b, o.request = some b ∧
    Assoc.keys b.content = types.eraseDups ∧
    ∀ entry ∈ b.content, a.Holds ((v.get? "schema").getD .null) entry.2
  /-- Form fields are the properties of one object. -/
  form : withPlace "body" listed = [] → withPlace "formData" listed ≠ [] → ∃ b id shape,
    o.request = some b ∧ b.content = [("multipart/form-data", id)] ∧
    (a.get id).kind = .object shape ∧ IsForm a (withPlace "formData" listed) shape
  none : withPlace "body" listed = [] → withPlace "formData" listed = [] → o.request = none

variable {a : Arena} {root v : Json} {merged kept : Assoc (String × String) Json}

/-! ### Merging -/

theorem Keyed.filter (h : Keyed merged) (wanted : (String × String) × Json → Bool) :
    Keyed (merged.filter wanted) where
  nodup := (List.filter_sublist.map Prod.fst).nodup h.nodup
  key p hp := h.key p (List.mem_of_mem_filter hp)

/-- What is chosen by its key is chosen by the name and the place that it has itself. -/
theorem Keyed.values_filter (h : Keyed merged) {wanted : (String × String) × Json → Bool}
    {said : Json → Bool} (hsame : ∀ p, p.1 = titleOf p.2 → wanted p = said p.2) :
    (merged.map Prod.snd).filter said = (merged.filter wanted).map Prod.snd := by
  rw [List.filter_map]
  exact congrArg _ (List.filter_congr fun p hp => (hsame p (h.key p hp)).symm)

/-- Parameters that are no references and have different names or places are merged as they are. -/
theorem mergeParameters_of_nodup {vs : List Json} (hvs : ∀ v ∈ vs, Pointer.follow root v = .ok v)
    (h : (vs.map titleOf).Nodup) :
    mergeParameters root [] vs = .ok (vs.map fun v => (titleOf v, v)) := by
  have hkeys : (Assoc.keys (vs.map fun v => (titleOf v, v))).Nodup := by
    rw [Assoc.keys, List.map_map]
    exact h
  refine mergeParameters_eq_ok.2 ⟨vs, mapM_eq_ok.2 (List.forall₂_same.2 hvs), ?_⟩
  rw [parameterKey_eq_titleOf, Assoc.ofPairs_of_nodup hkeys]

namespace Upgrade

theorem titleOf_upgradeParameter (v : Json) : titleOf (upgradeParameter v) = titleOf v := by
  rw [← parameterKey_eq_titleOf]
  simp [parameterKey, getString?, get?_upgradeParameter]

/-- Upgraded parameters are merged again in the same order. -/
theorem mergeParameters_upgraded (root : Json) (h : Keyed kept) :
    mergeParameters root [] (kept.map fun p => upgradeParameter p.2) =
      .ok (kept.map fun p => (p.1, upgradeParameter p.2)) := by
  have hkeys : (kept.map fun p => upgradeParameter p.2).map titleOf = Assoc.keys kept := by
    rw [List.map_map]
    refine List.map_congr_left fun p hp => ?_
    rw [h.key p hp]
    exact titleOf_upgradeParameter p.2
  rw [mergeParameters_of_nodup, List.map_map]
  · refine congrArg Except.ok (List.map_congr_left fun p hp => ?_)
    rw [h.key p hp, Function.comp, titleOf_upgradeParameter]
  · intro v hv
    obtain ⟨p, -, rfl⟩ := List.mem_map.1 hv
    exact follow_upgradeParameter root p.2
  · rw [hkeys]
    exact h.nodup

/-! ### Places, schemas and media types -/

theorem isBody_eq {p : (String × String) × Json} (h : p.1 = titleOf p.2) :
    isBody p = decide (textAt p.2 "in" = "body") := by
  rw [isBody, h]
  rfl

theorem isForm_eq {p : (String × String) × Json} (h : p.1 = titleOf p.2) :
    isForm p = decide (textAt p.2 "in" = "formData") := by
  rw [isForm, h]
  rfl

theorem withPlace_body (h : Keyed merged) :
    withPlace "body" (merged.map Prod.snd) = (merged.filter isBody).map Prod.snd :=
  h.values_filter fun _ => isBody_eq

theorem withPlace_form (h : Keyed merged) :
    withPlace "formData" (merged.map Prod.snd) = (merged.filter isForm).map Prod.snd :=
  h.values_filter fun _ => isForm_eq

theorem ofRequestLine_values (h : Keyed merged) : ofRequestLine (merged.map Prod.snd) =
    (merged.filter fun p => !isBody p && !isForm p).map Prod.snd :=
  h.values_filter fun p hp => by simp [isBody_eq hp, isForm_eq hp]

theorem getBool?_getD (v : Json) : (v.getBool? "required").getD false = saysRequired v := by
  unfold getBool? saysRequired
  cases v.get? "required" with
  | none => rfl
  | some w => cases w <;> rfl

/-- A value with a member is an object, and so it says which schema it has. -/
theorem says_parameterSchema {key : String} {w : Json} (h : v.get? key = some w) :
    SaysSchema v (parameterSchema v) := by
  cases v with
  | obj fields =>
    rw [parameterSchema]
    cases hown : Assoc.get? fields "schema" with
    | some schema => exact .own hown
    | none =>
      have hleft : (fields.filter fun p => !parameterKeywords.contains p.1) =
          fields.filter fun p => p.1 ∉ ["name", "in", "required", "description",
            "collectionFormat", "allowEmptyValue"] :=
        List.filter_congr fun p _ => by simp [parameterKeywords]
      dsimp only
      rw [hleft]
      exact .keywords hown
  | null | bool | num | str | arr => cases h

theorem namedTypes_eq (v : Option Json) :
    ((v.bind asArray?).getD []).filterMap asString? = namedTypes v := by
  have hsame : asString? = fun
      | .str s => some s
      | _ => none := by
    funext w
    cases w <;> rfl
  rw [hsame]
  unfold namedTypes
  cases v with
  | none => rfl
  | some w => cases w <;> rfl

theorem mediaTypesOf_eq (root op : Json) :
    mediaTypesOf op "consumes" (defaultsOf root).consumes = takenTypes root op := by
  unfold mediaTypesOf takenTypes defaultsOf mediaTypes
  simp only [namedTypes_eq]
  cases op.get? "consumes" <;> rfl

end Upgrade

/-! ### Bodies -/

theorem holds_of_readContent {location : String} {entries : List (String × Json)}
    {content : Assoc String NodeId} (h : Gave a (readContent location entries) content) :
    Assoc.Alike (fun entry id => a.Holds ((entry.get? "schema").getD .null) id)
      entries content := by
  have hrest : ∀ entries, Keeps (readContent location entries) := fun entries =>
    Plants.keeps (plants_readContent location entries [])
  induction entries generalizing content with
  | nil =>
    rw [← h.of_pure]
    exact .nil
  | cons entry rest ih =>
    obtain ⟨mediaType, v⟩ := entry
    rw [readContent] at h
    obtain ⟨id, hid, h⟩ := h.bind fun _ => (hrest rest).bind fun _ => keeps_pure _
    obtain ⟨content, hcontent, h⟩ := h.bind fun _ => keeps_pure _
    rw [← h.of_pure]
    exact .cons ⟨rfl, _, hid⟩ (ih hcontent)

/-- A body that is no reference is read of its content. -/
theorem holds_of_readBody? {location : String} (hv : v.get? "$ref" = none) {b : Option Body}
    (h : Gave a (readBody? root location (some v)) b) : ∃ body, b = some body ∧
      Assoc.Alike (fun entry id => a.Holds ((entry.get? "schema").getD .null) id)
        ((v.getObject? "content").getD []) body.content := by
  have hcontent : ∀ v, Keeps (readBody location v) := fun v =>
    (Plants.keeps (plants_readContent location _ [])).bind fun _ => keeps_pure _
  unfold readBody? at h
  obtain ⟨w, hw, h⟩ := h.bind fun w => by
    rw [map_eq_pure_bind]
    exact (hcontent w).bind fun _ => keeps_pure _
  have hsame := hw.of_ofExcept
  rw [Pointer.follow_of_no_reference root hv] at hsame
  cases hsame
  obtain ⟨body, hbody, rfl⟩ := h.map
  unfold readBody at hbody
  obtain ⟨content, hread, hbody⟩ := hbody.bind fun _ => keeps_pure _
  rw [← hbody.of_pure]
  exact ⟨_, rfl, holds_of_readContent hread⟩

/-! ### Operations -/

namespace Upgrade

theorem isParameter_of_upgradeParameter {spot : Spot} {q : Parameter}
    (h : Gave a (readParameter spot (upgradeParameter v)) q) : IsParameter SaysSchema a v q := by
  have hget : ∀ key ∈ ["name", "in", "required", "description"],
      (upgradeParameter v).get? key = v.get? key := by
    intro key hkey
    rw [get?_upgradeParameter, if_pos hkey, if_neg]
    rintro rfl
    exact absurd hkey (by decide)
  have hschema : schemaOf? (upgradeParameter v) = some (parameterSchema v) := by
    rw [schemaOf?, get?_upgradeParameter, if_pos rfl]
  obtain ⟨hname, hplace, hrequired, hdescription, schema, hsame, hholds⟩ :=
    isParameter_of_readParameter h
  rw [hschema] at hsame
  cases hsame
  rw [hget "name" (by decide)] at hname
  rw [hget "in" (by decide)] at hplace
  rw [hget "required" (by decide)] at hrequired
  rw [hget "description" (by decide)] at hdescription
  exact ⟨hname, hplace, hrequired, hdescription, _, says_parameterSchema hname, hholds⟩

/-- One entry for each type of a list, with the same schema. -/
theorem contentOf_read {types : List String} {schema : Json} {content : Assoc String NodeId}
    (h : Assoc.Alike (fun entry id => a.Holds ((entry.get? "schema").getD .null) id)
      ((contentOf types schema).asObject?.getD []) content) :
    Assoc.keys content = types.eraseDups ∧ ∀ entry ∈ content, a.Holds schema entry.2 := by
  change Assoc.Alike _ (Assoc.ofPairs (types.map fun t => (t, Json.obj [("schema", schema)])))
    content at h
  refine ⟨?_, fun entry hentry => ?_⟩
  · rw [← h.keys, Assoc.keys_ofPairs, Assoc.keys, List.map_map]
    exact congrArg _ (List.map_id _)
  · obtain ⟨p, hp, -, hholds⟩ := exists_of_mem_right h hentry
    obtain ⟨before, after, hpairs, -⟩ := Assoc.mem_ofPairs.1 hp
    have hmem : (p.1, p.2) ∈ types.map fun t => (t, Json.obj [("schema", schema)]) := by
      rw [hpairs]
      exact List.mem_append_right _ List.mem_cons_self
    obtain ⟨_, -, hvalue⟩ := List.mem_map.1 hmem
    rw [← (Prod.mk.inj hvalue).2] at hholds
    exact hholds

theorem body_of_readBody? {location : String} {types : List String} {b : Option Body}
    (h : Gave a (readBody? root location (some (bodyRequest types v))) b) :
    ∃ body, b = some body ∧ Assoc.keys body.content = types.eraseDups ∧
      ∀ entry ∈ body.content, a.Holds ((v.get? "schema").getD .null) entry.2 := by
  obtain ⟨body, rfl, hcontent⟩ := holds_of_readBody? (reference_bodyRequest types v) h
  exact ⟨body, rfl, contentOf_read hcontent⟩

/-- The object that form fields are rewritten to. -/
theorem form_of_holds {properties : Assoc String Json} {required : List Json} {id : NodeId}
    (h : a.Holds (.obj [("type", .str "object"), ("properties", .obj properties),
      ("required", .arr required)]) id) :
    ∃ shape, (a.get id).kind = .object shape ∧ Assoc.Alike a.Holds properties shape.properties ∧
      shape.required = required.filterMap Json.asString? := by
  have hkind := h.told.kind
  generalize (a.get id).kind = kind at hkind
  rw [show Schema.form _ = .object from rfl] at hkind
  cases hkind with
  | @object shape hshape =>
    exact ⟨shape, rfl, hshape.properties, hshape.required⟩

/-- Form fields have different names, as they have the same place. -/
theorem nodup_names_of_isForm {fields : Assoc (String × String) Json}
    (hkeys : (Assoc.keys fields).Nodup) (hform : ∀ p ∈ fields, isForm p = true) :
    (fields.map fun p => p.1.1).Nodup := by
  have hsame : Assoc.keys fields =
      (fields.map fun p => p.1.1).map fun name => (name, "formData") := by
    rw [List.map_map]
    refine List.map_congr_left fun p hp => Prod.ext rfl ?_
    simpa [isForm] using hform p hp
  rw [hsame] at hkeys
  exact hkeys.of_map _

theorem form_of_readBody? {location : String} {fields : Assoc (String × String) Json}
    (hkeyed : Keyed fields) (hform : ∀ p ∈ fields, isForm p = true) {b : Option Body}
    (h : Gave a (readBody? root location (some (.obj [("content", formRequest fields)]))) b) :
    ∃ body id shape, b = some body ∧ body.content = [("multipart/form-data", id)] ∧
      (a.get id).kind = .object shape ∧ IsForm a (fields.map Prod.snd) shape := by
  obtain ⟨body, rfl, hcontent⟩ := holds_of_readBody? rfl h
  have hnames : (Assoc.keys (fields.map fun p => (p.1.1, parameterSchema p.2))).Nodup := by
    rw [Assoc.keys, List.map_map]
    exact nodup_names_of_isForm hkeyed.nodup hform
  -- the content has one entry, under the media type of forms
  change Assoc.Alike _ [(formMediaType, Json.obj [("schema", _)])] body.content at hcontent
  obtain ⟨⟨mediaType, id⟩, rest, ⟨hname, hschema⟩, hnil, hentries⟩ :=
    List.forall₂_cons_left_iff.1 hcontent
  cases hname
  cases hnil
  obtain ⟨shape, hkind, hproperties, hrequired⟩ := form_of_holds hschema
  rw [Assoc.ofPairs_of_nodup hnames] at hproperties
  refine ⟨body, id, shape, rfl, hentries, hkind, List.forall₂_map_left_iff.2 ?_, ?_⟩
  · refine forall₂_imp (List.forall₂_map_left_iff.1 hproperties) fun p hp q _ hq => ?_
    obtain ⟨hname, hholds⟩ := hq
    have hplace : textAt p.2 "in" = "formData" := by
      simpa [isForm_eq (hkeyed.key p hp)] using hform p hp
    refine ⟨hname.symm.trans (by rw [hkeyed.key p hp]; rfl), _, ?_, hholds⟩
    obtain ⟨w, hw⟩ := get?_of_textAt (by rw [hplace]; decide)
    exact says_parameterSchema hw
  · calc shape.required
        = (fields.filter fun p => saysRequired p.2).map fun p => p.1.1 := by
          rw [hrequired]
          simp [List.filterMap_map, Function.comp_def, asString?, getBool?_getD]
      _ = (fields.filter fun p => saysRequired p.2).map fun p => textAt p.2 "name" :=
          List.map_congr_left fun p hp => by
            rw [hkeyed.key p (List.mem_of_mem_filter hp)]
            rfl
      _ = ((fields.map Prod.snd).filter saysRequired).map fun v => textAt v "name" := by
          rw [List.filter_map, List.map_map]
          rfl

theorem carries_of_upgradeOperation {defaults : Defaults} {shared : List Json}
    {op op' upgraded : Json} {spot : Spot} {o : Operation}
    (h : upgradeOperation root defaults shared op = .ok op')
    (ho : Gave a (readOperation upgraded spot [] op') o) :
    ∃ all merged, (shared ++ parametersOf op).mapM (Pointer.follow root) = .ok all ∧
      Merges all merged ∧ Carries a (mediaTypesOf op "consumes" defaults.consumes) merged o := by
  obtain ⟨merged, responses, hmerged, -, rfl⟩ := upgradeOperation_eq_ok.1 h
  obtain ⟨hkeyed, all, hall, hmerges⟩ := merges_of_mergeParameters hmerged
  obtain ⟨again, hagain, hparameters, hrequest⟩ := parts_of_readOperation ho
  refine ⟨all, merged.map Prod.snd, hall, hmerges, ?_⟩
  rw [request_assembled] at hrequest
  rw [parametersOf_assembled] at hagain
  replace hagain := (mergeParameters_upgraded upgraded (hkeyed.filter _)).symm.trans hagain
  cases hagain
  rw [List.forall₂_map_left_iff] at hparameters
  generalize mediaTypesOf op "consumes" defaults.consumes = types at hrequest
  refine ⟨?_, fun v hv => ?_, fun hnobody hsome => ?_, fun hnobody hnone => ?_⟩
  · rw [ofRequestLine_values hkeyed, List.forall₂_map_left_iff]
    exact hparameters.imp fun p q hq => isParameter_of_upgradeParameter hq
  · rw [withPlace_body hkeyed, List.map_eq_singleton_iff] at hv
    obtain ⟨p, hp, rfl⟩ := hv
    have hbody : request? types merged = some (bodyRequest types p.2) := by simp [request?, hp]
    rw [hbody] at hrequest
    exact body_of_readBody? hrequest
  · rw [withPlace_body hkeyed, List.map_eq_nil_iff] at hnobody
    rw [withPlace_form hkeyed, Ne, List.map_eq_nil_iff] at hsome
    have hform : request? types merged =
        some (.obj [("content", formRequest (merged.filter isForm))]) := by
      unfold request?
      rw [hnobody]
      cases hfields : merged.filter isForm with
      | nil => exact absurd hfields hsome
      | cons => rfl
    rw [hform] at hrequest
    rw [withPlace_form hkeyed]
    exact form_of_readBody? (hkeyed.filter isForm) (fun p hp => (List.mem_filter.1 hp).2) hrequest
  · rw [withPlace_body hkeyed, List.map_eq_nil_iff] at hnobody
    rw [withPlace_form hkeyed, List.map_eq_nil_iff] at hnone
    have hnothing : request? types merged = none := by simp [request?, hnobody, hnone]
    rw [hnothing] at hrequest
    exact hrequest.of_pure.symm

end Upgrade

/-! ### Whole documents -/

open Upgrade

/-- Each operation of a document in the older layout has the parameters that its path item and its
object list, merged, and nothing of them is lost on the way through the newer layout. -/
theorem parameters_carried {d : Document} (h : ofJson root = .ok d) (hold : isOlder root = true) :
    List.Forall₂ (fun p o => p.2.Describes o ∧ ∃ all merged, ListsAll root p all ∧
        Merges all merged ∧ Carries d.arena (takenTypes root p.2.value) merged o)
      (sites root) d.operations := by
  unfold ofJson at h
  rw [if_pos (show (root.get? "swagger").isSome = true from hold)] at h
  split at h
  · next upgraded hupgraded =>
    have hread := reads_of_upgrade hupgraded (gave_of_readLayout h)
    rw [placed_eq, List.forall₂_map_left_iff] at hread
    refine hread.imp fun p o hp => ?_
    obtain ⟨⟨shared, l⟩, hupgrade, hreads⟩ := hp
    cases hupgrade.shared
    refine ⟨hupgrade.upgrades.describes hreads.describes, ?_⟩
    obtain ⟨all, merged, hall, hmerges, hcarries⟩ :=
      carries_of_upgradeOperation hupgrade.upgraded hreads
    rw [parametersOf_eq, parametersOf_eq] at hall
    rw [mediaTypesOf_eq] at hcarries
    exact ⟨all, merged, hall, hmerges, hcarries⟩
  · cases h

/-- A path that lists a header for its two operations; one takes a body, the other one a form. -/
def orders : Json := .obj [("swagger", .str "2.0"), ("paths", .obj [("/orders", .obj [
  ("parameters", .arr [.obj [("name", .str "trace"), ("in", .str "header"),
    ("type", .str "string")]]),
  ("post", .obj [("consumes", .arr [.str "application/xml"]), ("parameters", .arr [
    .obj [("name", .str "order"), ("in", .str "body"),
      ("schema", .obj [("type", .str "object")])]])]),
  ("put", .obj [("parameters", .arr [
    .obj [("name", .str "note"), ("in", .str "formData"), ("required", .bool true),
      ("type", .str "string")]])])])])]

/-- What an operation has, but for its schemas: the names and places of its parameters, and for each
media type that it takes the properties and the required names of an object. -/
structure Outline where
  parameters : List (String × ParameterPlace)
  content : List (String × List String × List String)
  deriving DecidableEq

def outline (d : Document) (o : Operation) : Outline where
  parameters := o.parameters.map fun q => (q.name, q.place)
  content := ((o.request.map Body.content).getD []).map fun p =>
    (p.1, match (d.arena.get p.2).kind with
      | .object shape => (Assoc.keys shape.properties, shape.required)
      | _ => ([], []))

theorem parameters_carried_orders :
    isOlder orders = true ∧ ∃ d, ofJson orders = .ok d ∧
      List.Forall₂ (fun p o => p.2.Describes o ∧ ∃ all merged, ListsAll orders p all ∧
          Merges all merged ∧ Carries d.arena (takenTypes orders p.2.value) merged o)
        (sites orders) d.operations ∧
      d.operations.map (outline d) =
        [⟨[("trace", .header)], [("application/xml", [], [])]⟩,
          ⟨[("trace", .header)], [("multipart/form-data", ["note"], ["note"])]⟩] := by
  have hrun : (ofJson orders).map (fun d => d.operations.map (outline d)) =
      .ok [⟨[("trace", .header)], [("application/xml", [], [])]⟩,
        ⟨[("trace", .header)], [("multipart/form-data", ["note"], ["note"])]⟩] := by
    decide +kernel
  cases hd : ofJson orders with
  | error e =>
    rw [hd] at hrun
    cases hrun
  | ok d =>
    rw [hd] at hrun
    exact ⟨rfl, d, rfl, parameters_carried hd rfl, Except.ok.inj hrun⟩

end Document

end TypedClient
