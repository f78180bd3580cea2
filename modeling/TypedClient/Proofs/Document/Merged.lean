import TypedClient.Proofs.Document.Operations
import TypedClient.Proofs.Overridden

/-! The parameters of the operations of a document in the newer layout, against those that their
path items and their objects list. One that is listed again, under the same name for the same place,
takes over from those before it and stands where the first of them stood. -/

namespace TypedClient

namespace Document

open Json Building

/-! ### What is listed -/

/-- A text under a key; what is missing, or is no text, is the empty one. -/
def textAt (v : Json) (key : String) : String :=
  match v.get? key with
  | some (.str s) => s
  | _ => ""

/-- The name and the place that a listed parameter goes by. -/
def titleOf (v : Json) : String × String := (textAt v "name", textAt v "in")

/-- The parameters that a path item or an operation lists. -/
def parameterList (v : Json) : List Json :=
  match v.get? "parameters" with
  | some (.arr vs) => vs
  | _ => []

/-- The objects under the paths of a document, each with the path item in which it stands. -/
def sites (root : Json) : List (Json × Listed) :=
  ((root.getObject? "paths").getD []).flatMap fun p =>
    match Pointer.follow root p.2 with
    | .ok item => (listedItem p.1 item).map (Prod.mk item)
    | .error _ => []

/-- What a path item and an object in it list, references followed: `all`. -/
def ListsAll (root : Json) (site : Json × Listed) (all : List Json) : Prop :=
  (parameterList site.1 ++ parameterList site.2.value).mapM (Pointer.follow root) = .ok all

/-- The value is the last one of a list with its name and place. -/
def IsLastListed (all : List Json) (v : Json) : Prop :=
  ∃ before after, all = before ++ v :: after ∧ ∀ w ∈ after, titleOf w ≠ titleOf v

/-- One value for each name and place of a list, where it first stands, and as it last does. -/
structure Merges (all merged : List Json) : Prop where
  order : merged.map titleOf = (all.map titleOf).eraseDups
  last : ∀ v ∈ merged, IsLastListed all v

/-- The parameter says what the value says; which schema a value has is left open. -/
structure IsParameter (HasSchema : Json → Json → Prop) (a : Arena) (v : Json) (q : Parameter) :
    Prop where
  name : v.get? "name" = some (.str q.name)
  place : v.get? "in" = some (.str q.place.name)
  required : q.required = true ↔ v.get? "required" = some (.bool true)
  description : ∀ s, q.description = some s ↔ v.get? "description" = some (.str s)
  schema : ∃ schema, HasSchema v schema ∧ a.Holds schema q.schema

/-- The schema of a parameter in the newer layout: its own, or else that of its first content. -/
inductive HasSchema (v : Json) : Json → Prop
  | own {schema : Json} (h : v.get? "schema" = some schema) : HasSchema v schema
  | content {mediaType : String} {media schema : Json} {rest : Assoc String Json}
      (hnone : v.get? "schema" = none)
      (hcontent : v.get? "content" = some (.obj ((mediaType, media) :: rest)))
      (h : media.get? "schema" = some schema) : HasSchema v schema

variable {a : Arena} {root v : Json} {shared own all : List Json}
  {before merged : Assoc (String × String) Json}

theorem getString?_getD (v : Json) (key : String) : (v.getString? key).getD "" = textAt v key := by
  unfold getString? textAt
  cases v.get? key with
  | none => rfl
  | some w => cases w <;> rfl

theorem get?_of_textAt {key : String} (h : textAt v key ≠ "") : ∃ w, v.get? key = some w := by
  unfold textAt at h
  cases hget : v.get? key with
  | none =>
    rw [hget] at h
    exact absurd rfl h
  | some w => exact ⟨w, rfl⟩

theorem getString?_eq_some {key s : String} :
    v.getString? key = some s ↔ v.get? key = some (.str s) := by
  unfold getString?
  cases v.get? key with
  | none => simp
  | some w => cases w <;> simp [asString?]

theorem getBool?_getD_eq_true {key : String} :
    (v.getBool? key).getD false = true ↔ v.get? key = some (.bool true) := by
  unfold getBool?
  cases v.get? key with
  | none => simp
  | some w => cases w <;> simp [asBool?]

theorem parameterKey_eq_titleOf : parameterKey = titleOf := by
  funext v
  rw [parameterKey, titleOf, getString?_getD, getString?_getD]

theorem parametersOf_eq (v : Json) : parametersOf v = parameterList v := by
  unfold parametersOf parameterList getArray?
  cases v.get? "parameters" with
  | none => rfl
  | some w => cases w <;> rfl

theorem placed_eq (root : Json) :
    placed root = (sites root).map fun p => (parametersOf p.1, p.2) := by
  rw [placed, sites, List.map_flatMap]
  refine List.flatMap_congr fun p _ => ?_
  cases Pointer.follow root p.2 with
  | error => rfl
  | ok item =>
    rw [List.map_map]
    rfl

/-! ### Merging -/

theorem foldlM_mergeParameter_eq_ok {vs : List Json} :
    vs.foldlM (mergeParameter root) before = .ok merged ↔
      ∃ all, vs.mapM (Pointer.follow root) = .ok all ∧
        merged = Assoc.putAll before (all.map fun v => (parameterKey v, v)) := by
  induction vs generalizing before with
  | nil => simp [Assoc.putAll, pure, Except.pure, eq_comm]
  | cons v vs ih =>
    rw [List.foldlM_cons, List.mapM_cons, mergeParameter]
    cases hv : Pointer.follow root v with
    | error e =>
      constructor
      · intro h
        cases h
      · rintro ⟨all, h, -⟩
        cases h
    | ok w =>
      refine ih.trans ⟨?_, ?_⟩
      · rintro ⟨all, hall, rfl⟩
        exact ⟨w :: all, by rw [hall]; rfl, rfl⟩
      · rintro ⟨all', hall, rfl⟩
        obtain ⟨all, hvs, h⟩ := except_bind_eq_ok.1 (show (do
          let all ← vs.mapM (Pointer.follow root)
          pure (w :: all)) = Except.ok all' from hall)
        cases h
        exact ⟨all, hvs, rfl⟩

/-- References are followed first, and what they lead to is then put under its name and place. -/
theorem mergeParameters_eq_ok : mergeParameters root shared own = .ok merged ↔
    ∃ all, (shared ++ own).mapM (Pointer.follow root) = .ok all ∧
      merged = Assoc.ofPairs (all.map fun v => (parameterKey v, v)) :=
  foldlM_mergeParameter_eq_ok

theorem isLastListed_of_isLast {key : String × String} {v : Json}
    (h : Assoc.IsLast (all.map fun v => (titleOf v, v)) key v) :
    key = titleOf v ∧ IsLastListed all v := by
  obtain ⟨before, after, hall, hlast⟩ := h
  obtain ⟨first, rest, rfl, -, hrest⟩ := List.map_eq_append_iff.1 hall
  obtain ⟨w, after', rfl, hw, rfl⟩ := List.map_eq_cons_iff.1 hrest
  cases hw
  refine ⟨rfl, first, after', rfl, fun u hu hsame => hlast ?_⟩
  rw [← hsame]
  exact List.mem_map_of_mem (List.mem_map_of_mem hu)

/-- The values under their names and places are what their list is merged to. -/
theorem merges_ofPairs (all : List Json) :
    Merges all ((Assoc.ofPairs (all.map fun v => (titleOf v, v))).map Prod.snd) := by
  have hlast : ∀ p ∈ Assoc.ofPairs (all.map fun v => (titleOf v, v)),
      p.1 = titleOf p.2 ∧ IsLastListed all p.2 := fun p hp =>
    isLastListed_of_isLast (Assoc.mem_ofPairs.1 hp)
  refine ⟨?_, fun v hv => ?_⟩
  · rw [List.map_map]
    calc (Assoc.ofPairs (all.map fun v => (titleOf v, v))).map (titleOf ∘ Prod.snd)
        = Assoc.keys (Assoc.ofPairs (all.map fun v => (titleOf v, v))) :=
          List.map_congr_left fun p hp => (hlast p hp).1.symm
      _ = (all.map titleOf).eraseDups := by
          rw [Assoc.keys_ofPairs, Assoc.keys, List.map_map]
          rfl
  · obtain ⟨p, hp, rfl⟩ := List.mem_map.1 hv
    exact (hlast p hp).2

/-- Parameters under the names and places that they have themselves, each pair once. -/
structure Keyed (merged : Assoc (String × String) Json) : Prop where
  nodup : (Assoc.keys merged).Nodup
  key : ∀ p ∈ merged, p.1 = titleOf p.2

/-- Names and places are put once each, over the last value that is listed with them. -/
theorem merges_of_mergeParameters (h : mergeParameters root shared own = .ok merged) :
    Keyed merged ∧ ∃ all, (shared ++ own).mapM (Pointer.follow root) = .ok all ∧
      Merges all (merged.map Prod.snd) := by
  obtain ⟨all, hall, rfl⟩ := mergeParameters_eq_ok.1 h
  rw [parameterKey_eq_titleOf]
  exact ⟨⟨Assoc.nodup_keys_ofPairs _, fun p hp =>
    (isLastListed_of_isLast (Assoc.mem_ofPairs.1 hp)).1⟩, all, hall, merges_ofPairs all⟩

/-! ### Reading -/

theorem keeps_readParameter (spot : Spot) (v : Json) : Keeps (readParameter spot v) :=
  Plants.keeps (plants_readParameter spot v [])

theorem place_of_ofName? {text : String} {place : ParameterPlace}
    (h : ParameterPlace.ofName? text = some place) : place.name = text := by
  have hfound := List.find?_some h
  simpa using hfound

theorem hasSchema_of_schemaOf? {schema : Json} (h : schemaOf? v = some schema) :
    HasSchema v schema := by
  unfold schemaOf? at h
  cases hown : v.get? "schema" with
  | some own =>
    rw [hown] at h
    cases h
    exact .own hown
  | none =>
    rw [hown] at h
    dsimp only at h
    cases hcontent : v.get? "content" with
    | none =>
      rw [getObject?, hcontent] at h
      cases h
    | some content =>
      rw [getObject?, hcontent] at h
      cases content with
      | obj members =>
        cases members with
        | nil => cases h
        | cons first rest => exact .content hown hcontent h
      | _ => cases h

theorem isParameter_of_readParameter {spot : Spot} {q : Parameter}
    (h : Gave a (readParameter spot v) q) :
    IsParameter (fun v schema => schemaOf? v = some schema) a v q := by
  unfold readParameter at h
  split at h
  · obtain ⟨_, _, h, -⟩ := h
    cases h
  · next name hname =>
    dsimp only at h
    split at h
    · obtain ⟨_, _, h, -⟩ := h
      cases h
    · obtain ⟨_, _, h, -⟩ := h
      cases h
    · next place schema hplace hschema =>
      obtain ⟨id, hid, h⟩ := h.bind fun _ => keeps_pure _
      rw [← h.of_pure]
      refine ⟨getString?_eq_some.1 hname, ?_, getBool?_getD_eq_true,
        fun s => getString?_eq_some, schema, hschema, _, hid⟩
      have htext := place_of_ofName? hplace
      cases hin : v.getString? "in" with
      | none =>
        rw [hin] at htext
        cases place <;> exact absurd htext (by decide)
      | some text =>
        rw [hin, Option.getD_some] at htext
        rw [getString?_eq_some.1 hin, htext]

theorem IsParameter.imp {R S : Json → Json → Prop} {q : Parameter} (h : IsParameter R a v q)
    (himp : ∀ schema, R v schema → S v schema) : IsParameter S a v q where
  name := h.name
  place := h.place
  required := h.required
  description := h.description
  schema := h.schema.imp fun schema hs => ⟨himp schema hs.1, hs.2⟩

theorem IsParameter.title {R : Json → Json → Prop} {q : Parameter} (h : IsParameter R a v q) :
    titleOf v = (q.name, q.place.name) := by
  rw [titleOf, textAt, textAt, h.name, h.place]

theorem keeps_readBody? (root : Json) (location : String) (v : Option Json) :
    Keeps (readBody? root location v) :=
  Plants.keeps (plants_readBody? root location v [])

theorem keeps_readLimit? (spot : Spot) (v : Option Json) : Keeps (readLimit? spot v) :=
  Plants.keeps (plants_readLimit? spot v [])

/-- What was given on the way to an operation. -/
theorem parts_of_readOperation {spot : Spot} {shared : List Json} {o : Operation}
    (h : Gave a (readOperation root spot shared v) o) :
    ∃ merged, mergeParameters root shared (parametersOf v) = .ok merged ∧
      List.Forall₂ (fun p q => Gave a (readParameter spot p.2) q) merged o.parameters ∧
      Gave a (readBody? root (spot.text ++ " requestBody") (v.get? "requestBody")) o.request := by
  have hparameter : ∀ p : (String × String) × Json, Keeps (readParameter spot p.2) :=
    fun p => keeps_readParameter spot p.2
  have hlimit : ∀ finish : Option LimitedResource → Operation,
      Keeps (readLimit? spot (v.get? "x-limit") >>= fun limit => pure (finish limit)) :=
    fun _ => (keeps_readLimit? spot _).bind fun _ => keeps_pure _
  unfold readOperation at h
  obtain ⟨merged, hmerged, h⟩ := h.bind fun merged =>
    (keeps_mapM hparameter merged).bind fun _ => (keeps_readBody? root _ _).bind fun _ =>
      (keeps_readBody? root _ _).bind fun _ => hlimit _
  obtain ⟨parameters, hparameters, h⟩ := h.bind fun _ => (keeps_readBody? root _ _).bind fun _ =>
    (keeps_readBody? root _ _).bind fun _ => hlimit _
  obtain ⟨request, hrequest, h⟩ := h.bind fun _ =>
    (keeps_readBody? root _ _).bind fun _ => hlimit _
  obtain ⟨response, -, h⟩ := h.bind fun _ => hlimit _
  obtain ⟨limit, -, h⟩ := h.bind fun _ => keeps_pure _
  rw [← h.of_pure]
  exact ⟨merged, hmerged.of_ofExcept, hparameters.mapM hparameter, hrequest⟩

/-! ### Overriding -/

/-- The parameters that an operation has of all that are listed for it. -/
structure Overriding (a : Arena) (all : List Json) (parameters : List Parameter) : Prop where
  /-- No two have the same name and place. -/
  distinct : (parameters.map fun q => (q.name, q.place)).Nodup
  /-- All names and places that are listed are there, where each of them first stands. -/
  order : (parameters.map fun q => (q.name, q.place.name)) = (all.map titleOf).eraseDups
  /-- Each says what the last one says that is listed under its name and place. -/
  last : ∀ q ∈ parameters, ∃ v, IsLastListed all v ∧ IsParameter HasSchema a v q

theorem overriding_of_merges {values : List Json} {parameters : List Parameter}
    (hmerges : Merges all values)
    (h : List.Forall₂ (IsParameter HasSchema a) values parameters) :
    Overriding a all parameters := by
  have hnames : (parameters.map fun q => (q.name, q.place.name)) = (all.map titleOf).eraseDups :=
    (map_eq_of_forall₂ h fun _ _ hq => hq.title).symm.trans hmerges.order
  refine ⟨?_, hnames, fun q hq => ?_⟩
  · have hnodup : (parameters.map fun q => (q.name, q.place.name)).Nodup := by
      rw [hnames]
      exact nodup_eraseDups _
    refine List.Nodup.of_map (fun k : String × ParameterPlace => (k.1, k.2.name)) ?_
    rw [List.map_map]
    exact hnodup
  · obtain ⟨v, hv, hread⟩ := exists_of_mem_right h hq
    exact ⟨v, hmerges.last v hv, hread⟩

/-- Each operation of a document in the newer layout has the parameters that its path item and then
its object list, references followed, where those listed later override those listed earlier. -/
theorem parameters_override {d : Document} (h : ofJson root = .ok d) (hnew : isOlder root = false) :
    List.Forall₂ (fun p o => p.2.Describes o ∧
        ∃ all, ListsAll root p all ∧ Overriding d.arena all o.parameters)
      ((sites root).filter fun p => p.2.isAnswered) d.operations := by
  unfold ofJson at h
  rw [if_neg (show ¬ (root.get? "swagger").isSome = true from Bool.eq_false_iff.1 hnew)] at h
  split at h
  · have hread := reads_of_readPaths (gave_of_readLayout h)
    rw [placed_eq, List.filter_map, List.forall₂_map_left_iff] at hread
    refine hread.imp fun p o hp => ⟨hp.describes, ?_⟩
    obtain ⟨merged, hmerged, hparameters, -⟩ := parts_of_readOperation hp
    obtain ⟨-, all, hall, hmerges⟩ := merges_of_mergeParameters hmerged
    rw [parametersOf_eq, parametersOf_eq] at hall
    refine ⟨all, hall, overriding_of_merges hmerges (List.forall₂_map_left_iff.2 ?_)⟩
    exact hparameters.imp fun _ _ hq =>
      (isParameter_of_readParameter hq).imp fun _ => hasSchema_of_schemaOf?
  · cases h

/-- A path with a header and a page for its operation, which lists the page again and a text of the
query that is called like the header. -/
def books : Json := .obj [("openapi", .str "3.0.0"), ("paths", .obj [("/books", .obj [
  ("parameters", .arr [
    .obj [("name", .str "trace"), ("in", .str "header"), ("schema", .obj [])],
    .obj [("$ref", .str "#/components/parameters/Page")]]),
  ("get", .obj [("responses", .obj []), ("parameters", .arr [
    .obj [("name", .str "trace"), ("in", .str "query"), ("schema", .obj [])],
    .obj [("name", .str "page"), ("in", .str "query"), ("required", .bool true),
      ("schema", .obj [("type", .str "integer")])]])])])]),
  ("components", .obj [("parameters", .obj [("Page", .obj [("name", .str "page"),
    ("in", .str "query"), ("schema", .obj [("type", .str "string")])])])])]

theorem parameters_override_books :
    isOlder books = false ∧ ∃ d, ofJson books = .ok d ∧
      ((sites books).filter fun p => p.2.isAnswered).length = 1 ∧
      List.Forall₂ (fun p o => p.2.Describes o ∧
          ∃ all, ListsAll books p all ∧ Overriding d.arena all o.parameters)
        ((sites books).filter fun p => p.2.isAnswered) d.operations ∧
      (d.operations.map fun o => o.parameters.map fun q => (q.name, q.place, q.required)) =
        [[("trace", .header, false), ("page", .query, true), ("trace", .query, false)]] := by
  have hrun : (ofJson books).map (fun d => d.operations.map fun o => o.parameters.map fun q =>
      (q.name, q.place, q.required)) =
    .ok [[("trace", .header, false), ("page", .query, true), ("trace", .query, false)]] := by
    decide +kernel
  cases hd : ofJson books with
  | error e =>
    rw [hd] at hrun
    cases hrun
  | ok d =>
    rw [hd] at hrun
    exact ⟨rfl, d, rfl, by decide +kernel, parameters_override hd rfl, Except.ok.inj hrun⟩

end Document

end TypedClient
