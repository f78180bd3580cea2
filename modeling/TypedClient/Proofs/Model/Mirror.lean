import TypedClient.Model.Project
import TypedClient.Proofs.Alike
import TypedClient.Proofs.Types.Order

/-! Types of two graphs that look alike. A relation between their positions mirrors one graph in the
other when related types say the same and refer to related types again, place by place. Positions
play no part in what is written for a type, so related types have the same model. -/

namespace TypedClient

/-! ### Types that say the same -/

/-- What a type says without what it refers to. -/
def TypeInfo.bare (t : TypeInfo) : TypeInfo :=
  { t with
    element := none, properties := [], base := none, genericDefinition := none
    genericArguments := [] }

/-- Properties that differ in the position of their type only, which is related. -/
structure Property.Matches (R : TypeId → TypeId → Prop) (p p' : String × Property) : Prop where
  name : p.1 = p'.1
  type : R p.2.type p'.2.type
  same : { p.2 with type := TypeGraph.any } = { p'.2 with type := TypeGraph.any }

/-- Types that say the same and refer to related types. -/
structure TypeInfo.Matches (R : TypeId → TypeId → Prop) (t t' : TypeInfo) : Prop where
  bare : t.bare = t'.bare
  element : Option.Rel R t.element t'.element
  base : Option.Rel R t.base t'.base
  definition : Option.Rel R t.genericDefinition t'.genericDefinition
  arguments : List.Forall₂ R t.genericArguments t'.genericArguments
  properties : List.Forall₂ (Property.Matches R) t.properties t'.properties

namespace TypeInfo.Matches

variable {R : TypeId → TypeId → Prop} {t t' : TypeInfo} (h : t.Matches R t')

include h

theorem name : t.name = t'.name := (congrArg TypeInfo.name h.bare :)

theorem fullName : t.fullName = t'.fullName := (congrArg TypeInfo.fullName h.bare :)

theorem isBuiltin : t.isBuiltin = t'.isBuiltin := (congrArg TypeInfo.isBuiltin h.bare :)

theorem isArray : t.isArray = t'.isArray := (congrArg TypeInfo.isArray h.bare :)

theorem isEnum : t.isEnum = t'.isEnum := (congrArg TypeInfo.isEnum h.bare :)

theorem members : t.members = t'.members := (congrArg TypeInfo.members h.bare :)

theorem description : t.description = t'.description := (congrArg TypeInfo.description h.bare :)

theorem isInterface : t.isInterface = t'.isInterface := (congrArg TypeInfo.isInterface h.bare :)

theorem isGeneric : t.isGeneric = t'.isGeneric := (congrArg TypeInfo.isGeneric h.bare :)

theorem isGenericDefinition : t.isGenericDefinition = t'.isGenericDefinition :=
  (congrArg TypeInfo.isGenericDefinition h.bare :)

theorem isGenericParameter : t.isGenericParameter = t'.isGenericParameter :=
  (congrArg TypeInfo.isGenericParameter h.bare :)

theorem fileKey : t.fileKey = t'.fileKey := (congrArg TypeInfo.fileKey h.bare :)

theorem isModel : t.isModel = t'.isModel := (congrArg TypeInfo.isModel h.bare :)

theorem takesArguments : (t.isGeneric && !t.genericArguments.isEmpty) =
    (t'.isGeneric && !t'.genericArguments.isEmpty) := by
  have harguments := h.arguments
  rw [h.isGeneric]
  generalize t.genericArguments = arguments, t'.genericArguments = arguments' at harguments
  cases harguments <;> rfl

theorem nested : List.Forall₂ R (if t.isArray then t.element.toList else [])
    (if t'.isArray then t'.element.toList else []) := by
  rw [h.isArray]
  split
  · exact toList_of_rel h.element
  · exact .nil

end TypeInfo.Matches

namespace TypeGraph

variable {g g' : TypeGraph} {R : TypeId → TypeId → Prop} {t t' : TypeId}

/-- Related types of the two graphs look alike. -/
def Mirrors (g g' : TypeGraph) (R : TypeId → TypeId → Prop) : Prop :=
  ∀ {t t'}, R t t' → ∃ info info', g.get? t = some info ∧ g'.get? t' = some info' ∧
    info.Matches R info'

section Mirrors

variable (hm : Mirrors g g' R)

include hm

theorem Mirrors.of_get? {info : TypeInfo} (hget : g.get? t = some info) (hR : R t t') :
    ∃ info', g'.get? t' = some info' ∧ info.Matches R info' := by
  obtain ⟨other, info', hother, hinfo', h⟩ := hm hR
  rw [hget] at hother
  cases hother
  exact ⟨info', hinfo', h⟩

theorem Mirrors.get (hR : R t t') : (g.get t).Matches R (g'.get t') := by
  obtain ⟨info, info', hinfo, hinfo', h⟩ := hm hR
  rwa [get_of_get? hinfo, get_of_get? hinfo']

theorem Mirrors.lt_size (hR : R t t') : t < g.size ∧ t' < g'.size := by
  obtain ⟨info, info', hinfo, hinfo', -⟩ := hm hR
  exact ⟨lt_size_of_get? hinfo, lt_size_of_get? hinfo'⟩

end Mirrors

/-! ### Spelling -/

mutual

theorem Spells.mirrored (hm : Mirrors g g' R) {t t' : TypeId} {s : String} (h : Spells g t s)
    (hR : R t t') : Spells g' t' s := by
  match h with
  | .array hget ha he hs =>
    obtain ⟨info', hinfo', hsame⟩ := hm.of_get? hget hR
    have helement := hsame.element
    rw [he] at helement
    generalize he' : info'.element = element' at helement
    cases helement with
    | some hu => exact .array hinfo' (hsame.isArray ▸ ha) he' (hs.mirrored hm hu)
  | .openArray hget ha he =>
    obtain ⟨info', hinfo', hsame⟩ := hm.of_get? hget hR
    have helement := hsame.element
    rw [he] at helement
    generalize he' : info'.element = element' at helement
    cases helement
    exact .openArray hinfo' (hsame.isArray ▸ ha) he'
  | .generic hget ha hg hs =>
    obtain ⟨info', hinfo', hsame⟩ := hm.of_get? hget hR
    rw [hsame.name]
    exact .generic hinfo' (hsame.isArray ▸ ha) (hsame.takesArguments ▸ hg)
      (hs.mirrored hm hsame.arguments)
  | .plain hget ha hg =>
    obtain ⟨info', hinfo', hsame⟩ := hm.of_get? hget hR
    rw [hsame.name]
    exact .plain hinfo' (hsame.isArray ▸ ha) (hsame.takesArguments ▸ hg)

theorem SpellsAll.mirrored (hm : Mirrors g g' R) {ids ids' : List TypeId} {names : List String}
    (h : SpellsAll g ids names) (hR : List.Forall₂ R ids ids') : SpellsAll g' ids' names := by
  match h, hR with
  | .nil, .nil => exact .nil
  | .cons hs hrest, .cons hu hall => exact .cons (hs.mirrored hm hu) (hrest.mirrored hm hall)

end

/-- Related types are written alike. -/
theorem Mirrors.spell (hm : Mirrors g g' R) (hg : g.Ordered) (hg' : g'.Ordered) (hR : R t t') :
    g.spell t = g'.spell t' := by
  obtain ⟨ht, ht'⟩ := hm.lt_size hR
  exact (hg'.spells_iff ht' _).1 (((hg.spells_iff ht _).2 rfl).mirrored hm hR)

/-! ### Dependencies -/

theorem keep_alike {owner owner' info info' : TypeInfo} (ho : owner.fullName = owner'.fullName)
    (hsame : info.Matches R info') (hR : R t t') {found found' : Assoc String TypeId}
    (h : Assoc.Alike R found found') :
    Assoc.Alike R (keep owner t info found) (keep owner' t' info' found') := by
  unfold keep
  rw [ho, hsame.fullName, hsame.isBuiltin, hsame.isGenericParameter, h.has]
  split
  · exact h
  · split
    · exact h
    · exact h.put _ hR

mutual

theorem Collects.mirrored (hm : Mirrors g g' R) {owner owner' : TypeInfo}
    (ho : owner.fullName = owner'.fullName) {t t' : TypeId}
    {found last found' : Assoc String TypeId} (h : Collects g owner found t last) (hR : R t t')
    (hf : Assoc.Alike R found found') :
    ∃ last', Collects g' owner' found' t' last' ∧ Assoc.Alike R last last' := by
  match h with
  | .visit hget hargs helement =>
    obtain ⟨info', hinfo', hsame⟩ := hm.of_get? hget hR
    obtain ⟨arguments', hargs', hf₁⟩ := hargs.mirrored hm ho hsame.arguments hf
    obtain ⟨elements', helement', hf₂⟩ := helement.mirrored hm ho hsame.nested hf₁
    exact ⟨_, .visit hinfo' hargs' helement', keep_alike ho hsame hR hf₂⟩

theorem CollectsAll.mirrored (hm : Mirrors g g' R) {owner owner' : TypeInfo}
    (ho : owner.fullName = owner'.fullName) {found last found' : Assoc String TypeId}
    {ids ids' : List TypeId} (h : CollectsAll g owner found ids last) (hR : List.Forall₂ R ids ids')
    (hf : Assoc.Alike R found found') :
    ∃ last', CollectsAll g' owner' found' ids' last' ∧ Assoc.Alike R last last' := by
  match h, hR with
  | .nil, .nil => exact ⟨found', .nil, hf⟩
  | .cons hc hrest, .cons hu hall =>
    obtain ⟨middle', hc', hf₁⟩ := hc.mirrored hm ho hu hf
    obtain ⟨last', hrest', hf₂⟩ := hrest.mirrored hm ho hall hf₁
    exact ⟨last', .cons hc' hrest', hf₂⟩

end

/-- What counts for the dependencies of types that look alike is related. -/
theorem Mirrors.dependencyRoots (hm : Mirrors g g' R) {info info' : TypeInfo}
    (h : info.Matches R info') :
    List.Forall₂ R (g.dependencyRoots info) (g'.dependencyRoots info') := by
  have helement : List.Forall₂ R
      (if info.isArray then info.element.toList.filter fun e => !(g.get e).isBuiltin else [])
      (if info'.isArray then info'.element.toList.filter fun e => !(g'.get e).isBuiltin
        else []) := by
    rw [h.isArray]
    split
    · exact filter_of_forall₂ (toList_of_rel h.element) fun u u' hu => by
        rw [(hm.get hu).isBuiltin]
    · exact .nil
  have hproperties : List.Forall₂ R (info.properties.map fun p => p.2.type)
      (info'.properties.map fun p => p.2.type) := by
    rw [List.forall₂_map_left_iff, List.forall₂_map_right_iff]
    exact h.properties.imp fun _ _ hp => hp.type
  have harguments : List.Forall₂ R
      (if info.isGeneric && !info.isGenericDefinition then info.genericArguments else [])
      (if info'.isGeneric && !info'.isGenericDefinition then info'.genericArguments
        else []) := by
    rw [h.isGeneric, h.isGenericDefinition]
    split
    · exact h.arguments
    · exact .nil
  exact List.rel_append (List.rel_append (List.rel_append
    (List.rel_append (toList_of_rel h.base) (toList_of_rel h.definition)) helement) hproperties)
    harguments

/-- Related types need related models. -/
theorem Mirrors.dependencies (hm : Mirrors g g' R) (hg : g.Ordered) (hg' : g'.Ordered)
    (hR : R t t') : List.Forall₂ R (g.dependencies t) (g'.dependencies t') := by
  obtain ⟨ht, ht'⟩ := hm.lt_size hR
  generalize hneeds : g.dependencies t = needed
  cases (hg.needs_iff ht needed).2 hneeds.symm with
  | intro hget helement hfound =>
    obtain ⟨info', hinfo', hsame⟩ := hm.of_get? hget hR
    obtain ⟨found', hfound', halike⟩ :=
      hfound.mirrored hm hsame.fullName (hm.dependencyRoots hsame) .nil
    have hneeds' : Needs g' t' (Assoc.values found') := by
      refine .intro hinfo' (fun element' he' => ?_) hfound'
      obtain ⟨u, hu⟩ := exists_get?
        (Nat.lt_trans (hg'.older hinfo' _ (mem_references_of_element he')) ht')
      rw [hu]
      rfl
    rw [← (hg'.needs_iff ht' _).1 hneeds']
    exact halike.values

end TypeGraph

/-! ### Models -/

namespace Model

open TypeGraph

variable {g g' : TypeGraph} {R : TypeId → TypeId → Prop} {t t' : TypeId} (hm : Mirrors g g' R)
  (hg : g.Ordered) (hg' : g'.Ordered) (hR : R t t')

include hm hg hg' hR

theorem imports_mirrored (ownKey : String) : imports g t ownKey = imports g' t' ownKey := by
  have hall : (g.dependencies t).map (fun u => Dependency.mk (g.get u).fileKey (g.get u).name) =
      (g'.dependencies t').map fun u => Dependency.mk (g'.get u).fileKey (g'.get u).name :=
    map_eq_of_forall₂ (hm.dependencies hg hg' hR) fun u u' hu => by
      rw [(hm.get hu).fileKey, (hm.get hu).name]
  unfold imports
  dsimp only
  rw [hall]

theorem properties_mirrored (isClass : Bool) :
    properties g t isClass = properties g' t' isClass := by
  refine map_eq_of_forall₂ (hm.get hR).properties fun p p' hp => ?_
  obtain ⟨name, type, nullable, required, description⟩ := p
  obtain ⟨name', type', nullable', required', description'⟩ := p'
  obtain ⟨hname, htype, hsame⟩ := hp
  cases hname
  cases hsame
  have hinfo := hm.get htype
  simp only [hm.spell hg hg' htype, initialValue, hinfo.isArray, hinfo.isBuiltin, hinfo.name,
    hinfo.isEnum]

/-- Related types have the same model. -/
theorem entry_mirrored : entry g t = entry g' t' := by
  have hinfo := hm.get hR
  have hbase : (g.get t).base.map g.spell = (g'.get t').base.map g'.spell := by
    have h := hinfo.base
    generalize (g.get t).base = base, (g'.get t').base = base' at h
    cases h with
    | none => rfl
    | some hu => exact congrArg some (hm.spell hg hg' hu)
  unfold entry
  dsimp only
  rw [hinfo.isEnum, hinfo.name, hinfo.fileKey, hinfo.description, hinfo.members,
    hinfo.isInterface, hm.spell hg hg' hR, properties_mirrored hm hg hg' hR,
    imports_mirrored hm hg hg' hR, hbase]

end Model

end TypedClient
