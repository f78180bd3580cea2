import TypedClient.Client.MediaTypeGrammar
import TypedClient.Proofs.Model.References
import TypedClient.Proofs.Types.Written
import TypedClient.Text.AsciiTable

/-! The models that a type needs, beside itself, are those that are named where its base and its
properties are written: one is collected for each of their full names, and no other. Collecting
follows arguments and elements of all types alike, while writing follows them only where the marks
of a type say so; the types of a document have the shapes in which both come to the same. -/

namespace TypedClient

/-- What a type is made of where it is needed: its arguments and, if it is an array, its element. -/
def TypeInfo.parts (t : TypeInfo) : List TypeId :=
  t.genericArguments ++ if t.isArray then t.element.toList else []

namespace TypeGraph

open Relation

variable {g : TypeGraph} {owner : TypeInfo} {found middle last : Assoc String TypeId}
  {P Q : TypeId → Prop} {id target u : TypeId}

/-- The first type is made of the other one. -/
def Holds (g : TypeGraph) (t u : TypeId) : Prop := u ∈ (g.get t).parts

/-- The type is to be imported by the owner if it refers to it. -/
structure Wanted (g : TypeGraph) (owner : TypeInfo) (u : TypeId) : Prop where
  counts : g.Counts u
  other : (g.get u).fullName ≠ owner.fullName

theorem Holds.refers (h : g.Holds id u) : g.Refers id u :=
  (List.mem_append.1 h).elim mem_references_of_argument mem_references_of_nested

/-! ### Collecting -/

/-- From what was found to what there is at the end, the wanted ones of some types have been added:
one for each full name that was not there, under that name. -/
structure Gathers (g : TypeGraph) (owner : TypeInfo) (found : Assoc String TypeId)
    (P : TypeId → Prop) (last : Assoc String TypeId) : Prop where
  kept : ∀ name ∈ Assoc.keys found, name ∈ Assoc.keys last
  added : ∀ p ∈ last, p ∈ found ∨ (P p.2 ∧ g.Wanted owner p.2 ∧ (g.get p.2).fullName = p.1)
  complete : ∀ u, P u → g.Wanted owner u → (g.get u).fullName ∈ Assoc.keys last
  distinct : (Assoc.keys found).Nodup → (Assoc.keys last).Nodup

/-- Nothing is added where the full names of all wanted types are there. -/
theorem gathers_same
    (h : ∀ u, P u → g.Wanted owner u → (g.get u).fullName ∈ Assoc.keys found) :
    Gathers g owner found P found :=
  ⟨fun _ h => h, fun _ h => .inl h, h, fun h => h⟩

theorem Gathers.trans (h : Gathers g owner found P middle) (h' : Gathers g owner middle Q last) :
    Gathers g owner found (fun u => P u ∨ Q u) last where
  kept name hname := h'.kept name (h.kept name hname)
  added p hp := by
    rcases h'.added p hp with hp | ⟨hQ, htold⟩
    · exact (h.added p hp).imp_right fun ⟨hP, htold⟩ => ⟨.inl hP, htold⟩
    · exact .inr ⟨.inr hQ, htold⟩
  complete u hu hwanted :=
    hu.elim (fun hP => h'.kept _ (h.complete u hP hwanted)) fun hQ => h'.complete u hQ hwanted
  distinct hfound := h'.distinct (h.distinct hfound)

theorem Gathers.of_iff (h : Gathers g owner found P last) (hiff : ∀ u, P u ↔ Q u) :
    Gathers g owner found Q last :=
  (funext fun u => propext (hiff u) : P = Q) ▸ h

theorem wanted_iff : g.Wanted owner target ↔
    ¬ ((decide ((g.get target).fullName = owner.fullName) || (g.get target).isBuiltin ||
      (g.get target).isGenericParameter) = true) := by
  simp only [Bool.or_eq_true, decide_eq_true_eq, not_or, Bool.not_eq_true]
  exact ⟨fun ⟨⟨hb, hp⟩, hother⟩ => ⟨⟨hother, hb⟩, hp⟩,
    fun ⟨⟨hother, hb⟩, hp⟩ => ⟨⟨hb, hp⟩, hother⟩⟩

/-- A type is passed over, or its full name is there, or it is put under that name. -/
theorem keep_cases (g : TypeGraph) (owner : TypeInfo) (found : Assoc String TypeId)
    (target : TypeId) :
    ((g.Wanted owner target → (g.get target).fullName ∈ Assoc.keys found) ∧
        keep owner target (g.get target) found = found) ∨
      (g.Wanted owner target ∧ keep owner target (g.get target) found =
        Assoc.put found (g.get target).fullName target) := by
  unfold keep
  split
  · next hunwanted => exact .inl ⟨fun h => absurd hunwanted (wanted_iff.1 h), rfl⟩
  · next hwanted =>
    split
    · next hhas =>
      refine .inl ⟨fun _ => ?_, rfl⟩
      by_contra hnot
      rw [Assoc.has, Assoc.get?_eq_none_iff.2 hnot] at hhas
      cases hhas
    · exact .inr ⟨wanted_iff.2 hwanted, rfl⟩

/-- One type is added, if it is wanted and its full name is new. -/
theorem gathers_keep (g : TypeGraph) (owner : TypeInfo) (found : Assoc String TypeId)
    (target : TypeId) :
    Gathers g owner found (· = target) (keep owner target (g.get target) found) := by
  rcases keep_cases g owner found target with ⟨hthere, heq⟩ | ⟨hwanted, heq⟩
  · rw [heq]
    refine gathers_same fun u hu => ?_
    subst hu
    exact hthere
  · rw [heq]
    refine ⟨fun name h => Assoc.mem_keys_put.2 (.inl h), fun p hp => ?_, fun u hu _ => ?_,
      fun h => Assoc.nodup_keys_put h _ _⟩
    · rcases Assoc.mem_put hp with rfl | hp
      · exact .inr ⟨rfl, hwanted, rfl⟩
      · exact .inl hp
    · subst hu
      exact Assoc.mem_keys_put.2 (.inr rfl)

mutual

/-- A reference adds what its type is made of, and the type itself. -/
theorem Collects.gathers {found last : Assoc String TypeId} {target : TypeId}
    (h : Collects g owner found target last) :
    Gathers g owner found (ReflTransGen g.Holds target) last := by
  match h with
  | @Collects.visit _ _ _ _ elements _ _ ht hargs helement =>
    have hown := gathers_keep g owner elements target
    rw [get_of_get? ht] at hown
    -- its arguments come first, then its element, then the type
    refine ((hargs.gathers.trans helement.gathers).trans hown).of_iff fun u => ?_
    rw [← exists_or, ReflTransGen.cases_head_iff, or_comm, eq_comm]
    refine or_congr_right (exists_congr fun part => ?_)
    rw [← or_and_right, Holds, get_of_get? ht, TypeInfo.parts, List.mem_append]

theorem CollectsAll.gathers {found last : Assoc String TypeId} {targets : List TypeId}
    (h : CollectsAll g owner found targets last) :
    Gathers g owner found (fun u => ∃ target ∈ targets, ReflTransGen g.Holds target u) last := by
  match h with
  | .nil => exact gathers_same fun u ⟨_, hu, _⟩ => absurd hu List.not_mem_nil
  | .cons hfirst hrest =>
    refine (hfirst.gathers.trans hrest.gathers).of_iff fun u => ?_
    rw [List.exists_mem_cons_iff]

end

/-- What has been gathered from nothing stands under its full name. -/
theorem Gathers.keys_eq (h : Gathers g owner [] P last) :
    Assoc.keys last = (Assoc.values last).map fun u => (g.get u).fullName := by
  rw [Assoc.keys, Assoc.values, List.map_map]
  refine List.map_congr_left fun p hp => ?_
  obtain ⟨-, -, hfull⟩ := (h.added p hp).resolve_left List.not_mem_nil
  exact hfull.symm

/-- A reference of `t` that counts for its dependencies leads to `u`. -/
def Involves (g : TypeGraph) (t u : TypeId) : Prop :=
  ∃ root ∈ g.dependencyRoots (g.get t), ReflTransGen g.Holds root u

/-- The wanted ones of what the counting references of a type are made of are collected, one for
each full name. -/
theorem Ordered.dependencies_told (hg : g.Ordered) (hid : id < g.size) :
    (∀ u ∈ g.dependencies id, g.Involves id u ∧ g.Wanted (g.get id) u) ∧
      (∀ u, g.Involves id u → g.Wanted (g.get id) u →
        ∃ v ∈ g.dependencies id, (g.get v).fullName = (g.get u).fullName) ∧
      ((g.dependencies id).map fun u => (g.get u).fullName).Nodup := by
  have hneeds := (hg.needs_iff hid _).2 rfl
  generalize g.dependencies id = needed at hneeds ⊢
  cases hneeds with
  | @intro _ found ht _ hfound =>
    rw [← get_of_get? ht] at hfound
    have hgathers := hfound.gathers
    have hkeys := hgathers.keys_eq
    refine ⟨fun u hu => ?_, fun u hu hwanted => ?_, ?_⟩
    · obtain ⟨p, hp, rfl⟩ := List.mem_map.1 hu
      obtain ⟨hheld, hwanted, -⟩ := (hgathers.added p hp).resolve_left List.not_mem_nil
      exact ⟨hheld, hwanted⟩
    · have hkey := hgathers.complete u hu hwanted
      rw [hkeys] at hkey
      exact List.mem_map.1 hkey
    · rw [← hkeys]
      exact hgathers.distinct List.nodup_nil

/-! ### Holding and naming -/

/-- The declaration of `t` cannot do without `u`: its base or one of its properties is written with
it, and it is a type of another full name, neither built in nor a parameter. -/
structure Imports (g : TypeGraph) (t u : TypeId) : Prop where
  named : ∃ root ∈ (g.get t).base.toList ++ (g.get t).properties.map (fun p => p.2.type),
    NamedIn g u root
  wanted : g.Wanted (g.get t) u

/-- What is named in a type is held by it, directly or through others. -/
theorem NamedIn.holds (h : NamedIn g u id) : ReflTransGen g.Holds id u := by
  induction h with
  | self => exact .refl
  | @element id element ha he _ ih =>
    refine .head (List.mem_append_right _ ?_) ih
    rw [if_pos ha, he]
    exact List.mem_singleton.2 rfl
  | argument _ _ hm _ ih => exact .head (List.mem_append_left _ hm) ih

end TypeGraph

/-! ### Types of a document -/

namespace Resolver

open Relation TypeGraph

variable {d : Document} {r : Resolver} {t u : TypeId}

/-- What a type of a node holds is named in it, unless that is built in: only arrays, which are, and
what is not generic are made of more than is written. -/
theorem Rooted.namedIn_iff_holds (hf : Faithful d r) (hg : r.graph.Ordered) (h : Rooted d r t)
    (hu : (r.graph.get u).isBuiltin = false) :
    NamedIn r.graph u t ↔ ReflTransGen r.graph.Holds t u := by
  refine ⟨NamedIn.holds, fun hholds => ?_⟩
  -- from the inside out: the shape of each type on the way says that its part is written
  induction hholds using ReflTransGen.head_induction_on with
  | refl =>
    refine .self (Bool.eq_false_iff.2 fun ha => ?_)
    rw [((h.shaped hg).array ha).1] at hu
    cases hu
  | @head t part hpart _ ih =>
    have hnamed := ih (h.refers hf hg hpart.refers)
    have hshaped := h.shaped hg
    rcases List.mem_append.1 hpart with hpart | hpart
    · have hsome := List.ne_nil_of_mem hpart
      exact .argument (Bool.eq_false_iff.2 fun ha => hsome (hshaped.array ha).2)
        (hshaped.arguments hsome) hpart hnamed
    · split at hpart
      · next ha => exact .element ha (Option.mem_toList.1 hpart) hnamed
      · exact absurd hpart List.not_mem_nil

/-- The references of a model that count are its base and its properties. -/
theorem Shaped.dependencyRoots {t : TypeInfo} (h : Shaped t) (hmodel : t.isModel = true)
    (g : TypeGraph) :
    g.dependencyRoots t = t.base.toList ++ t.properties.map fun p => p.2.type := by
  simp only [TypeInfo.isModel, Bool.and_eq_true, Bool.or_eq_true, Bool.not_eq_true'] at hmodel
  obtain ⟨⟨hbuiltin, -⟩, hshown⟩ := hmodel
  have harray : t.isArray = false :=
    Bool.eq_false_iff.2 fun ha => absurd ((h.array ha).1.symm.trans hbuiltin) (by decide)
  have hinstance : (t.isGeneric && !t.isGenericDefinition) = false := by
    rcases hshown with hplain | hdefinition
    · rw [hplain, Bool.false_and]
    · rw [hdefinition, Bool.not_true, Bool.and_false]
  have hdefinition : t.genericDefinition = none := by
    by_contra hsome
    rw [(h.definition hsome).1, (h.definition hsome).2] at hinstance
    cases hinstance
  rw [TypeGraph.dependencyRoots, harray, hinstance, hdefinition]
  simp

/-- A model imports what its references that count are made of, if it is wanted. -/
theorem Rooted.imports_iff (hf : Faithful d r) (hg : r.graph.Ordered) (h : Rooted d r t)
    (hmodel : (r.graph.get t).isModel = true) :
    Imports r.graph t u ↔ r.graph.Involves t u ∧ r.graph.Wanted (r.graph.get t) u := by
  have hroots := (h.shaped hg).dependencyRoots hmodel r.graph
  have hiff : r.graph.Wanted (r.graph.get t) u → ∀ root ∈ r.graph.dependencyRoots (r.graph.get t),
      (NamedIn r.graph u root ↔ ReflTransGen r.graph.Holds root u) := fun hwanted root hroot =>
    (h.refers hf hg (mem_references_of_root hroot)).namedIn_iff_holds hf hg hwanted.counts.1
  rw [Involves, hroots]
  rw [hroots] at hiff
  constructor
  · rintro ⟨⟨root, hroot, hnamed⟩, hwanted⟩
    exact ⟨⟨root, hroot, (hiff hwanted root hroot).1 hnamed⟩, hwanted⟩
  · rintro ⟨⟨root, hroot, hholds⟩, hwanted⟩
    exact ⟨⟨root, hroot, (hiff hwanted root hroot).2 hholds⟩, hwanted⟩

end Resolver

namespace Projection

open Resolver TypeGraph

variable {d : Document} {p : Projection} {options : Client.Options} {root : Json} {t : TypeId}

/-- A model needs the types that its declaration is written with: one for each of their full names,
and no other. -/
theorem dependencies_exact [MediaType.Reading] [Text.Transliteration]
    (h : Document.ofJson root = .ok d) (hp : build d options = .ok p)
    {name : String} (hregistered : Assoc.get? p.types.registry name = some t)
    (hmodel : (p.types.graph.get t).isModel = true) :
    (∀ u ∈ p.types.graph.dependencies t, Imports p.types.graph t u) ∧
      (∀ u, Imports p.types.graph t u → ∃ v ∈ p.types.graph.dependencies t,
        (p.types.graph.get v).fullName = (p.types.graph.get u).fullName) ∧
      ((p.types.graph.dependencies t).map fun u => (p.types.graph.get u).fullName).Nodup := by
  obtain ⟨r, hr, htypes, -⟩ := finished_of_build h hp
  rw [htypes] at hregistered hmodel ⊢
  have hregistered : Assoc.get? r.registry name = some t := hregistered
  obtain ⟨node, -, htyped⟩ := hr.faithful.declared hregistered
  have himports : ∀ u, _ ↔ _ := fun u =>
    (hr.faithful.rooted htyped).imports_iff (u := u) hr.faithful hr.types.graph hmodel
  obtain ⟨hsound, hcomplete, hdistinct⟩ :=
    hr.types.graph.dependencies_told (hr.faithful.bounded.registry hregistered)
  refine ⟨fun u hu => (himports u).2 (hsound u hu), fun u hu => ?_, hdistinct⟩
  obtain ⟨hheld, hwanted⟩ := (himports u).1 hu
  exact hcomplete u hheld hwanted

/-- A garden with beds in rows, one of them apart, all of them by name, and with labels. -/
def garden : Json := .obj [("openapi", .str "3.0.0"), ("components", .obj [("schemas", .obj [
  ("Bed", .obj [("type", .str "object")]),
  ("Garden", .obj [("type", .str "object"), ("properties", .obj [
    ("rows", .obj [("type", .str "array"), ("items", .obj [("type", .str "array"),
      ("items", .obj [("$ref", .str "#/components/schemas/Bed")])])]),
    ("compost", .obj [("$ref", .str "#/components/schemas/Bed")]),
    ("byName", .obj [("type", .str "object"),
      ("additionalProperties", .obj [("$ref", .str "#/components/schemas/Bed")])]),
    ("labels", .obj [("type", .str "array"), ("items", .obj [("type", .str "string")])])])])])])]

theorem dependencies_exact_garden :
    ∃ d p t, Document.ofJson garden = .ok d ∧ build d {} = .ok p ∧
      Assoc.get? p.types.registry "Garden" = some t ∧ (p.types.graph.get t).isModel = true ∧
      (p.types.graph.dependencies t).map (fun u => (p.types.graph.get u).fullName) = ["Bed"] ∧
      (∀ u ∈ p.types.graph.dependencies t, Imports p.types.graph t u) ∧
      (∀ u, Imports p.types.graph t u → ∃ v ∈ p.types.graph.dependencies t,
        (p.types.graph.get v).fullName = (p.types.graph.get u).fullName) ∧
      ((p.types.graph.dependencies t).map fun u => (p.types.graph.get u).fullName).Nodup := by
  have hrun : (Document.ofJson garden >>= fun d => (fun p =>
      decide (∃ t < p.types.graph.size, Assoc.get? p.types.registry "Garden" = some t ∧
        (p.types.graph.get t).isModel = true ∧
        (p.types.graph.dependencies t).map (fun u => (p.types.graph.get u).fullName) =
          ["Bed"])) <$> build d {}) = .ok true := by decide +kernel
  obtain ⟨d, p, hd, hp, hholds⟩ := exists_of_run hrun
  obtain ⟨t, -, hregistered, hmodel, hnames⟩ := of_decide_eq_true hholds
  exact ⟨d, p, t, hd, hp, hregistered, hmodel, hnames,
    dependencies_exact hd hp hregistered hmodel⟩

end Projection

end TypedClient
