import TypedClient.Proofs.Document.Named

/-! The operations of a document against the objects that it lists under its paths. In the newer
layout those count that list responses, and each operation is read of one of them. The older layout
is upgraded first, object by object, which gives responses to all of them, so that none is left out
there. -/

namespace TypedClient

namespace Document

open Json Building

/-- An object that stands in a path item under the name of a method. -/
structure Listed where
  path : String
  method : HttpMethod
  fields : Assoc String Json

namespace Listed

def value (l : Listed) : Json := .obj l.fields

/-- Whether the object lists responses. -/
def isAnswered (l : Listed) : Bool := Assoc.has l.fields "responses"

/-- The operation is the one that the object describes. -/
structure Describes (l : Listed) (o : Operation) : Prop where
  path : o.path = l.path
  method : o.method = l.method
  operationId : o.operationId = l.value.getString? "operationId"
  summary : o.summary = l.value.getString? "summary"
  description : o.description = l.value.getString? "description"
  tags : o.tags = ((l.value.getArray? "tags").getD []).filterMap Json.asString?

/-- The second object is what the first one is upgraded to. -/
structure Upgrades (l l' : Listed) : Prop where
  path : l'.path = l.path
  method : l'.method = l.method
  kept : ∀ key ∈ Upgrade.copiedKeywords, l'.value.get? key = l.value.get? key
  isAnswered : l'.isAnswered = true

theorem Upgrades.describes {l l' : Listed} {o : Operation} (h : l.Upgrades l')
    (ho : l'.Describes o) : l.Describes o := by
  have hkept : ∀ key ∈ Upgrade.copiedKeywords, l'.value.get? key = l.value.get? key := h.kept
  refine ⟨ho.path.trans h.path, ho.method.trans h.method, ho.operationId.trans ?_,
    ho.summary.trans ?_, ho.description.trans ?_, ho.tags.trans ?_⟩
  · rw [getString?, getString?, hkept _ (by decide)]
  · rw [getString?, getString?, hkept _ (by decide)]
  · rw [getString?, getString?, hkept _ (by decide)]
  · rw [getArray?, getArray?, hkept _ (by decide)]

end Listed

/-- The object under a member of a path item, if it is one that is named for a method. -/
def listedMember? (path : String) (m : String × Json) : Option Listed :=
  match HttpMethod.ofName? m.1, m.2 with
  | some method, .obj fields => some ⟨path, method, fields⟩
  | _, _ => none

def listedItem (path : String) (item : Json) : List Listed :=
  (item.asObject?.getD []).filterMap (listedMember? path)

/-- The objects under the paths of a document, references of paths followed, in its order. -/
def listed (root : Json) : List Listed :=
  ((root.getObject? "paths").getD []).flatMap fun p =>
    match Pointer.follow root p.2 with
    | .ok item => listedItem p.1 item
    | .error _ => []

/-- The same objects, each with the parameters that its path item lists for all of them. -/
def placed (root : Json) : List (List Json × Listed) :=
  ((root.getObject? "paths").getD []).flatMap fun p =>
    match Pointer.follow root p.2 with
    | .ok item => (listedItem p.1 item).map (Prod.mk (parametersOf item))
    | .error _ => []

theorem map_snd_placed (root : Json) : (placed root).map Prod.snd = listed root := by
  rw [placed, listed, List.map_flatMap]
  refine List.flatMap_congr fun p _ => ?_
  split
  · rw [List.map_map]
    exact List.map_id _
  · rfl

variable {root item : Json} {path : String} {shared : List Json} {a s t : Arena}

/-! ### The newer layout -/

/-- The operation is read of the object on the way to this arena. -/
def Listed.Reads (a : Arena) (root : Json) (p : List Json × Listed) (o : Operation) : Prop :=
  Gave a (readOperation root ⟨p.2.method, p.2.path⟩ p.1 p.2.value) o

theorem describes_of_readOperation {spot : Spot} {fields : Assoc String Json} {o : Operation}
    (h : outcome (readOperation root spot shared (.obj fields)) s = (.ok o, t)) :
    (Listed.mk spot.path spot.method fields).Describes o := by
  unfold readOperation at h
  obtain ⟨merged, _, -, h⟩ := outcome_bind_eq_ok.1 h
  obtain ⟨parameters, _, -, h⟩ := outcome_bind_eq_ok.1 h
  obtain ⟨request, _, -, h⟩ := outcome_bind_eq_ok.1 h
  obtain ⟨response, _, -, h⟩ := outcome_bind_eq_ok.1 h
  obtain ⟨limit, _, -, h⟩ := outcome_bind_eq_ok.1 h
  rw [outcome_pure] at h
  cases h
  exact ⟨rfl, rfl, rfl, rfl, rfl, rfl⟩

theorem Listed.Reads.describes {p : List Json × Listed} {o : Operation} (h : Reads a root p o) :
    p.2.Describes o := by
  obtain ⟨_, _, h, -⟩ := h
  exact describes_of_readOperation h

theorem reads_of_readMember {m : String × Json} {o : Option Operation}
    (h : Gave a (readMember root path shared m) o) :
    Option.Rel (fun l o => Listed.Reads a root (shared, l) o)
      ((listedMember? path m).filter Listed.isAnswered) o := by
  obtain ⟨key, v⟩ := m
  unfold readMember at h
  unfold listedMember?
  dsimp only at h ⊢
  cases hmethod : HttpMethod.ofName? key with
  | none =>
    rw [hmethod] at h
    rw [← h.of_pure]
    exact .none
  | some method =>
    rw [hmethod] at h
    cases v with
    | obj fields =>
      dsimp only at h ⊢
      by_cases hanswered : (Listed.mk path method fields).isAnswered = true
      · rw [if_pos (show Assoc.has fields "responses" = true from hanswered)] at h
        obtain ⟨o, ho, rfl⟩ := h.map
        rw [Option.filter_some, if_pos hanswered]
        exact .some ho
      · rw [if_neg (show ¬ Assoc.has fields "responses" = true from hanswered)] at h
        rw [Option.filter_some, if_neg hanswered, ← h.of_pure]
        exact .none
    | null | bool | num | str | arr =>
      obtain ⟨_, _, h, -⟩ := h
      cases h

theorem reads_of_readPathItem {os : List Operation} (h : Gave a (readPathItem root path item) os) :
    List.Forall₂ (Listed.Reads a root) (((listedItem path item).map
      (Prod.mk (parametersOf item))).filter fun p => p.2.isAnswered) os := by
  unfold readPathItem at h
  obtain ⟨operations, hread, h⟩ := h.bind fun _ => keeps_pure _
  rw [← h.of_pure, listedItem, List.filter_map, List.forall₂_map_left_iff]
  show List.Forall₂ _ (List.filter Listed.isAnswered _) _
  rw [List.filter_filterMap]
  exact List.rel_filterMap (fun _ _ hm => reads_of_readMember hm)
    (hread.mapM fun m => Plants.keeps (plants_readMember root path _ m []))

/-- In the newer layout the operations are read of the answered objects, one of each. -/
theorem reads_of_readPaths {os : List Operation} (h : Gave a (readPaths root) os) :
    List.Forall₂ (Listed.Reads a root) ((placed root).filter fun p => p.2.isAnswered) os := by
  have hitem : ∀ p : String × Json, Keeps (do
      let item ← Building.ofExcept (Pointer.follow root p.2)
      readPathItem root p.1 item) := fun p =>
    (Schema.keeps_ofExcept _).bind fun item =>
      Plants.keeps (plants_readPathItem root p.1 item [])
  unfold readPaths at h
  obtain ⟨operations, hread, h⟩ := h.bind fun _ => keeps_pure _
  rw [← h.of_pure, placed, List.filter_flatMap, List.flatMap_def]
  refine List.rel_flatten (List.forall₂_map_left_iff.2 ?_)
  refine (hread.mapM hitem).imp fun p os hp => ?_
  obtain ⟨item, hfollow, hp⟩ := hp.bind fun item =>
      Plants.keeps (plants_readPathItem root p.1 item [])
  rw [hfollow.of_ofExcept]
  exact reads_of_readPathItem hp

/-! ### The older layout -/

namespace Upgrade

variable {defaults : Defaults}

/-- The media types of a document where an operation does not say. -/
def defaultsOf (root : Json) : Defaults where
  consumes := mediaTypes (root.get? "consumes")
  produces := mediaTypes (root.get? "produces")

/-- The second object is what the first one is upgraded to; its path item lists no parameters. -/
structure IsUpgrade (root : Json) (defaults : Defaults) (p p' : List Json × Listed) : Prop where
  shared : p'.1 = []
  path : p'.2.path = p.2.path
  method : p'.2.method = p.2.method
  upgraded : upgradeOperation root defaults p.1 p.2.value = .ok p'.2.value

/-- What is upgraded has the texts that it had, and responses in any case. -/
theorem upgrades_of_upgradeOperation (path : String) (method : HttpMethod)
    {fields : Assoc String Json} {v : Json}
    (h : upgradeOperation root defaults shared (.obj fields) = .ok v) :
    ∃ fields', v = .obj fields' ∧
      (Listed.mk path method fields).Upgrades (.mk path method fields') := by
  obtain ⟨merged, responses, -, -, rfl⟩ := upgradeOperation_eq_ok.1 h
  refine ⟨_, rfl, rfl, rfl, fun key hkey => get?_assembled _ _ _ _ hkey, ?_⟩
  show ((assembled ..).get? "responses").isSome = true
  rw [responses_assembled]
  rfl

theorem IsUpgrade.upgrades {p p' : List Json × Listed} (h : IsUpgrade root defaults p p') :
    p.2.Upgrades p'.2 := by
  obtain ⟨fields', hfields, hupgrades⟩ :=
    upgrades_of_upgradeOperation p.2.path p.2.method h.upgraded
  cases hfields
  exact ⟨h.path, h.method, hupgrades.kept, hupgrades.isAnswered⟩

theorem isUpgrade_of_upgradeMember (path : String) {m m' : String × Json}
    (h : (match m.2 with
      | .obj _ => do pure (m.1, ← upgradeOperation root defaults shared m.2)
      | op => pure (m.1, op)) = Except.ok m') :
    m'.1 = m.1 ∧ Option.Rel (fun l l' => IsUpgrade root defaults (shared, l) ([], l'))
      (listedMember? path m) (listedMember? path m') := by
  obtain ⟨key, v⟩ := m
  unfold listedMember?
  cases v with
  | obj fields =>
    obtain ⟨v', hv, h⟩ := except_bind_eq_ok.1 h
    cases h
    refine ⟨rfl, ?_⟩
    dsimp only
    cases HttpMethod.ofName? key with
    | none => exact .none
    | some method =>
      obtain ⟨fields', rfl, -⟩ := upgrades_of_upgradeOperation path method hv
      exact .some ⟨rfl, rfl, rfl, hv⟩
  | null | bool | num | str | arr =>
    cases h
    refine ⟨rfl, ?_⟩
    dsimp only
    cases HttpMethod.ofName? key <;> exact .none

theorem listedItem_methods (path : String) (members : Assoc String Json) :
    listedItem path (.obj members) =
      (members.filter fun p => (HttpMethod.ofName? p.1).isSome).filterMap (listedMember? path) := by
  show members.filterMap _ = _
  rw [List.filterMap_filter]
  refine List.filterMap_congr fun m _ => ?_
  split
  · rfl
  · next hm =>
    rw [Option.not_isSome_iff_eq_none] at hm
    rw [listedMember?, hm]

/-- The objects of an upgraded path item are those of the path item, upgraded, and nothing else is
in it. -/
theorem isUpgrade_of_upgradePathItem (path : String) {item' : Json}
    (h : upgradePathItem root defaults item = .ok item') :
    (∀ key, HttpMethod.ofName? key = none → item'.get? key = none) ∧
      List.Forall₂ (IsUpgrade root defaults)
        ((listedItem path item).map (Prod.mk (parametersOf item)))
        ((listedItem path item').map (Prod.mk (parametersOf item'))) := by
  cases item with
  | obj members =>
    obtain ⟨members', hmembers, h⟩ := except_bind_eq_ok.1 h
    cases h
    have hall := (mapM_eq_ok.1 hmembers).imp fun _ _ => isUpgrade_of_upgradeMember path
    -- keys stay as they are, and only names of methods have been kept
    have hmethods : ∀ key, HttpMethod.ofName? key = none → (Json.obj members').get? key = none := by
      refine fun key => get?_methods fun m' hm' => ?_
      obtain ⟨m, hm, hsame, -⟩ := exists_of_mem_right hall hm'
      rw [hsame]
      exact (List.mem_filter.1 hm).2
    have hunshared : parametersOf (.obj members') = [] := by
      rw [parametersOf, Json.getArray?, hmethods _ (by decide)]
      rfl
    refine ⟨hmethods, ?_⟩
    rw [hunshared, listedItem_methods, List.forall₂_map_left_iff, List.forall₂_map_right_iff]
    exact List.rel_filterMap (fun _ _ hm => hm.2) hall
  | null | bool | num | str | arr =>
    cases h
    exact ⟨fun _ _ => rfl, .nil⟩

/-- The objects that an upgraded document lists are those of the document, upgraded. -/
theorem placed_upgrade {upgraded : Json} (h : upgrade root = .ok upgraded) :
    List.Forall₂ (IsUpgrade root (defaultsOf root)) (placed root) (placed upgraded) := by
  obtain ⟨paths, hpaths, h⟩ := except_bind_eq_ok.1 h
  cases h
  unfold upgradePaths at hpaths
  rw [placed, placed, List.flatMap_def, List.flatMap_def]
  refine List.rel_flatten ?_
  show List.Forall₂ _ _ (List.map _ paths)
  rw [List.forall₂_map_left_iff, List.forall₂_map_right_iff]
  refine (mapM_eq_ok.1 hpaths).imp fun p p' hp => ?_
  obtain ⟨item, hitem, hp⟩ := except_bind_eq_ok.1 hp
  obtain ⟨item', hitem', hp⟩ := except_bind_eq_ok.1 hp
  cases hp
  obtain ⟨hmethods, hupgrades⟩ := isUpgrade_of_upgradePathItem p.1 hitem'
  rw [hitem, Pointer.follow_of_no_reference _ (hmethods "$ref" (by decide))]
  exact hupgrades

/-- All of them are answered, and so each is read. -/
theorem reads_of_upgrade {upgraded : Json} (h : upgrade root = .ok upgraded) {os : List Operation}
    (hread : Gave a (readPaths upgraded) os) : List.Forall₂
      (fun p o => ∃ p', IsUpgrade root (defaultsOf root) p p' ∧ Listed.Reads a upgraded p' o)
      (placed root) os := by
  have hplaced := placed_upgrade h
  have hreads := reads_of_readPaths hread
  have hall : ((placed upgraded).filter fun p => p.2.isAnswered) = placed upgraded := by
    refine List.filter_eq_self.2 fun p' hp' => ?_
    obtain ⟨p, -, hp⟩ := exists_of_mem_right hplaced hp'
    exact hp.upgrades.isAnswered
  rw [hall] at hreads
  exact forall₂_comp hplaced hreads fun hp ho => ⟨_, hp, ho⟩

end Upgrade

/-! ### Both layouts -/

variable {d : Document}

/-- Whether a document is in the older layout. -/
def isOlder (root : Json) : Bool := (root.get? "swagger").isSome

/-- The objects that are read as operations. -/
def counted (root : Json) : List Listed :=
  if isOlder root then listed root else (listed root).filter Listed.isAnswered

/-- What was given for the paths of a document that was read. -/
theorem gave_of_readLayout {version : Version} (h : readLayout version root = .ok d) :
    Gave d.arena (readPaths root) d.operations := by
  obtain ⟨t, -, hpaths⟩ := steps_of_readLayout h
  exact ⟨t, _, hpaths, fun _ _ h => h⟩

theorem describe_of_ofJson (h : ofJson root = .ok d) :
    List.Forall₂ Listed.Describes (counted root) d.operations := by
  unfold ofJson at h
  unfold counted isOlder
  split at h
  · next hold =>
    rw [if_pos hold, ← map_snd_placed, List.forall₂_map_left_iff]
    split at h
    · next upgraded hupgraded =>
      refine (Upgrade.reads_of_upgrade hupgraded (gave_of_readLayout h)).imp fun p o hp => ?_
      obtain ⟨p', hupgrade, hreads⟩ := hp
      exact hupgrade.upgrades.describes hreads.describes
    · cases h
  · next hnew =>
    rw [if_neg hnew, ← map_snd_placed, List.filter_map, List.forall₂_map_left_iff]
    split at h
    · exact (reads_of_readPaths (gave_of_readLayout h)).imp fun p o hp => hp.describes
    · cases h

/-- Operations are read of all objects that a document of the older layout lists, and of those that
list responses in the newer one. So they are read of just these in both unless the older layout has
others. -/
theorem operations_exact (h : ofJson root = .ok d) :
    List.Forall₂ Listed.Describes (counted root) d.operations ∧
      (List.Forall₂ Listed.Describes ((listed root).filter Listed.isAnswered) d.operations ↔
        (isOlder root = true → ∀ l ∈ listed root, l.isAnswered = true)) := by
  have hread := describe_of_ofJson h
  refine ⟨hread, fun hanswered hold => ?_, fun hall => ?_⟩
  · have hlength := hanswered.length_eq.trans hread.length_eq.symm
    rw [counted, if_pos hold] at hlength
    exact List.length_filter_eq_length_iff.1 hlength
  · unfold counted at hread
    split at hread
    · next hold => rwa [List.filter_eq_self.2 (hall hold)]
    · exact hread

/-- A document of the older layout with two operations, one of them without responses. -/
def halfAnswered : Json := .obj [("swagger", .str "2.0"), ("paths", .obj [
  ("/pets", .obj [("get", .obj [("responses", .obj [])]), ("post", .obj [])])])]

/-- In the older layout an object without responses is read as an operation as well. -/
theorem operations_of_halfAnswered :
    ¬ ∀ (root : Json) (d : Document), ofJson root = .ok d →
      List.Forall₂ Listed.Describes ((listed root).filter Listed.isAnswered) d.operations := by
  intro hclaim
  have hrun : (ofJson halfAnswered).map (fun d => d.operations.length) = .ok 2 := by decide +kernel
  have hone : ((listed halfAnswered).filter Listed.isAnswered).length = 1 := by decide +kernel
  cases hd : ofJson halfAnswered with
  | error e =>
    rw [hd] at hrun
    cases hrun
  | ok d =>
    rw [hd] at hrun
    have htwo : d.operations.length = 2 := Except.ok.inj hrun
    have hlength := (hclaim _ d hd).length_eq
    rw [hone, htwo] at hlength
    cases hlength

theorem operations_exact_halfAnswered :
    ∃ d, ofJson halfAnswered = .ok d ∧ (counted halfAnswered).length = 2 ∧
      List.Forall₂ Listed.Describes (counted halfAnswered) d.operations ∧
      (List.Forall₂ Listed.Describes ((listed halfAnswered).filter Listed.isAnswered) d.operations ↔
        (isOlder halfAnswered = true → ∀ l ∈ listed halfAnswered, l.isAnswered = true)) := by
  have hrun : (ofJson halfAnswered).isOk = true := by decide +kernel
  cases hd : ofJson halfAnswered with
  | error e =>
    rw [hd] at hrun
    cases hrun
  | ok d => exact ⟨d, rfl, by decide +kernel, operations_exact hd⟩

end Document

end TypedClient
