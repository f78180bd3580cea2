import Mathlib.Data.List.Basic
import Mathlib.Tactic.Tauto
import TypedClient.Types.Graph

/-! Graphs whose types refer to older types only. In such a graph every chain of references comes to
an end within the graph, so spelling a type and collecting the models that it needs end there too,
whatever the depth to which they are followed. Both are said here as relations that look a type up
wherever they meet one: they hold only where each reference on the way leads to a type. -/

namespace TypedClient

namespace TypeGraph

/-- The built-in type that is looked up by this name. -/
def intrinsicType (name : String) : TypeInfo := { TypeInfo.builtin name with isIntrinsic := true }

/-- The first type of every graph. -/
def anyType : TypeInfo := intrinsicType anyName

/-- Types refer to older types only, the first one is `any`, and those that are looked up by name
are built in and have that name. -/
structure Ordered (g : TypeGraph) : Prop where
  older : ∀ {id t}, g.get? id = some t → ∀ u ∈ t.references, u < id
  any : g.get? any = some anyType ∧ Assoc.get? g.intrinsics anyName = some any
  intrinsic : ∀ {name id}, Assoc.get? g.intrinsics name = some id →
    g.get? id = some (intrinsicType name)

variable {g : TypeGraph} {id : TypeId} {t : TypeInfo}

/-! ### Looking types up -/

theorem lt_size_of_get? (h : g.get? id = some t) : id < g.size :=
  (Array.getElem?_eq_some_iff.1 h).1

theorem exists_get? (h : id < g.size) : ∃ t, g.get? id = some t :=
  ⟨g.types[id], Array.getElem?_eq_getElem h⟩

theorem get_of_get? (h : g.get? id = some t) : g.get id = t := by
  rw [get, h]
  rfl

theorem get?_eq_get (h : id < g.size) : g.get? id = some (g.get id) := by
  obtain ⟨t, ht⟩ := exists_get? h
  rw [get_of_get? ht, ht]

theorem get_of_size_le (h : g.size ≤ id) : g.get id = TypeInfo.builtin "" := by
  rw [get, get?, Array.getElem?_eq_none h]
  rfl

theorem get?_insert (g : TypeGraph) (t : TypeInfo) (id : TypeId) :
    (g.insert t).2.get? id = if id = g.size then some t else g.get? id :=
  Array.getElem?_push

theorem get?_insert_of_lt (t : TypeInfo) (h : id < g.size) :
    (g.insert t).2.get? id = g.get? id := by
  rw [get?_insert, if_neg (Nat.ne_of_lt h)]

theorem get?_set (g : TypeGraph) (id other : TypeId) (t : TypeInfo) :
    (g.set id t).get? other = if id = other then (g.get? id).map fun _ => t else g.get? other := by
  show (g.types.setIfInBounds id t)[other]? = _
  rw [Array.getElem?_setIfInBounds]
  split
  · split
    · next hlt => rw [get?, Array.getElem?_eq_getElem hlt, Option.map_some]
    · next hge => rw [get?, Array.getElem?_eq_none (Nat.le_of_not_lt hge), Option.map_none]
  · rfl

/-! ### Graphs that grow -/

namespace Ordered

theorem initial : Ordered TypeGraph.initial where
  older {id t} h u hu := by
    have hid : id = 0 := Nat.lt_one_iff.1 (lt_size_of_get? h)
    subst hid
    cases h
    exact absurd hu List.not_mem_nil
  any := ⟨rfl, rfl⟩
  intrinsic {name id} h := by
    cases List.mem_singleton.1 (Assoc.mem_of_get? h)
    rfl

theorem lt_of_intrinsic (hg : g.Ordered) {name : String}
    (h : Assoc.get? g.intrinsics name = some id) : id < g.size :=
  lt_size_of_get? (hg.intrinsic h)

/-- Different names stand for different types. -/
theorem intrinsic_injective (hg : g.Ordered) {name other : String}
    (h : Assoc.get? g.intrinsics name = some id) (ho : Assoc.get? g.intrinsics other = some id) :
    name = other := by
  have hsame := (hg.intrinsic h).symm.trans (hg.intrinsic ho)
  exact congrArg TypeInfo.name (Option.some.inj hsame)

theorem insert (hg : g.Ordered) (h : ∀ u ∈ t.references, u < g.size) :
    (g.insert t).2.Ordered where
  older {id v} hv u hu := by
    rw [get?_insert] at hv
    split at hv
    · next hid =>
      cases hv
      rw [hid]
      exact h u hu
    · exact hg.older hv u hu
  any := ⟨(get?_insert_of_lt t (lt_size_of_get? hg.any.1)).trans hg.any.1, hg.any.2⟩
  intrinsic hn := (get?_insert_of_lt t (hg.lt_of_intrinsic hn)).trans (hg.intrinsic hn)

/-- A graph was ordered before its last type was added. -/
theorem of_insert (h : (g.insert t).2.Ordered) (hany : TypeGraph.any < g.size)
    (hbound : ∀ {name id}, Assoc.get? g.intrinsics name = some id → id < g.size) : g.Ordered where
  older hv := h.older ((get?_insert_of_lt t (lt_size_of_get? hv)).trans hv)
  any := ⟨(get?_insert_of_lt t hany).symm.trans h.any.1, h.any.2⟩
  intrinsic hn := (get?_insert_of_lt t (hbound hn)).symm.trans (h.intrinsic hn)

theorem addIntrinsic (hg : g.Ordered) (name : String) : (g.intrinsic name).2.Ordered := by
  unfold TypeGraph.intrinsic
  split
  · exact hg
  · next hnew =>
    have hinsert : (g.insert (intrinsicType name)).2.Ordered :=
      hg.insert fun u hu => absurd hu List.not_mem_nil
    refine ⟨hinsert.older, ⟨hinsert.any.1, ?_⟩, fun {other id} ho => ?_⟩
    · have hne : name ≠ anyName := by
        rintro rfl
        rw [hg.any.2] at hnew
        cases hnew
      exact (Assoc.get?_put_of_ne hne ..).trans hg.any.2
    · have hother : Assoc.get? (Assoc.put g.intrinsics name g.size) other = some id := ho
      rw [Assoc.get?_put] at hother
      split at hother
      · next heq =>
        cases hother
        rw [← heq]
        show (g.insert (intrinsicType name)).2.get? g.size = _
        rw [get?_insert, if_pos rfl]
      · exact hinsert.intrinsic hother

/-- A type that is not looked up by name may take another name. -/
theorem rename (hg : g.Ordered) (hid : ∀ name, Assoc.get? g.intrinsics name ≠ some id)
    (hsame : t.references = (g.get id).references) : (g.set id t).Ordered where
  older {other v} hv u hu := by
    rw [get?_set] at hv
    split at hv
    · next heq =>
      obtain ⟨old, hold, hnew⟩ := Option.map_eq_some_iff.1 hv
      rw [← hnew, hsame, get_of_get? hold] at hu
      rw [← heq]
      exact hg.older hold u hu
    · exact hg.older hv u hu
  any := by
    have hne : id ≠ TypeGraph.any := fun heq => hid anyName (heq ▸ hg.any.2)
    rw [get?_set, if_neg hne]
    exact hg.any
  intrinsic {name other} ho := by
    have hne : id ≠ other := fun heq => hid name (heq ▸ ho)
    rw [get?_set, if_neg hne]
    exact hg.intrinsic ho

end Ordered

/-! ### Spelling -/

mutual

/-- A type is written in this way, and every reference that this takes leads to a type. -/
inductive Spells (g : TypeGraph) : TypeId → String → Prop
  | array {id : TypeId} {t : TypeInfo} {element : TypeId} {s : String} (h : g.get? id = some t)
      (ha : t.isArray = true) (he : t.element = some element) (hs : Spells g element s) :
      Spells g id (s ++ "[]")
  | openArray {id : TypeId} {t : TypeInfo} (h : g.get? id = some t) (ha : t.isArray = true)
      (he : t.element = none) : Spells g id (anyName ++ "[]")
  | generic {id : TypeId} {t : TypeInfo} {names : List String} (h : g.get? id = some t)
      (ha : t.isArray = false)
      (hg : (t.isGeneric && !t.genericArguments.isEmpty) = true)
      (hs : SpellsAll g t.genericArguments names) :
      Spells g id (t.name ++ "<" ++ String.intercalate "," names ++ ">")
  | plain {id : TypeId} {t : TypeInfo} (h : g.get? id = some t) (ha : t.isArray = false)
      (hg : (t.isGeneric && !t.genericArguments.isEmpty) = false) : Spells g id t.name

/-- So are several types, one by one. -/
inductive SpellsAll (g : TypeGraph) : List TypeId → List String → Prop
  | nil : SpellsAll g [] []
  | cons {id : TypeId} {s : String} {ids : List TypeId} {names : List String}
      (h : Spells g id s) (hs : SpellsAll g ids names) : SpellsAll g (id :: ids) (s :: names)

end

theorem mem_references_of_element {element : TypeId} (h : t.element = some element) :
    element ∈ t.references := by
  unfold TypeInfo.references
  rw [h]
  exact List.mem_append_left _ (List.mem_append_left _ (List.mem_append_left _
    (List.mem_append_left _ (List.mem_singleton.2 rfl))))

theorem mem_references_of_argument {u : TypeId} (h : u ∈ t.genericArguments) :
    u ∈ t.references :=
  List.mem_append_left _ (List.mem_append_right _ h)

theorem spellsAll_of_forall {f : TypeId → String} {ids : List TypeId}
    (h : ∀ id ∈ ids, Spells g id (f id)) : SpellsAll g ids (ids.map f) := by
  induction ids with
  | nil => exact .nil
  | cons id ids ih =>
    exact .cons (h id List.mem_cons_self) (ih fun u hu => h u (List.mem_cons_of_mem _ hu))

/-- Followed to a depth greater than its position, a type is spelled out. -/
theorem Ordered.spells_within (hg : g.Ordered) (depth : Nat) :
    ∀ id < g.size, id < depth → Spells g id (spellWithin g depth id) := by
  induction depth with
  | zero => exact fun id _ h => absurd h (Nat.not_lt_zero id)
  | succ depth ih =>
    intro id hid hdepth
    have ht := get?_eq_get hid
    have hbelow : ∀ u ∈ (g.get id).references, Spells g u (spellWithin g depth u) := by
      intro u hu
      have hlt := hg.older ht u hu
      exact ih u (Nat.lt_trans hlt hid) (Nat.lt_of_lt_of_le hlt (Nat.lt_succ_iff.1 hdepth))
    rw [spellWithin]
    split
    · next ha =>
      split
      · next element he => exact .array ht ha he (hbelow _ (mem_references_of_element he))
      · next he => exact .openArray ht ha he
    · next ha =>
      rw [Bool.not_eq_true] at ha
      split
      · next hgeneric =>
        exact .generic ht ha hgeneric
          (spellsAll_of_forall fun u hu => hbelow u (mem_references_of_argument hu))
      · next hgeneric => exact .plain ht ha ((Bool.not_eq_true _).mp hgeneric)

mutual

theorem Spells.eq_within (hg : g.Ordered) {id : TypeId} {s : String} (h : Spells g id s)
    {depth : Nat} (hdepth : id < depth) : spellWithin g depth id = s := by
  obtain ⟨depth, rfl⟩ := Nat.exists_eq_add_one_of_ne_zero (Nat.ne_zero_of_lt hdepth)
  rw [spellWithin]
  match h with
  | .array ht ha he hs =>
    have hlt := hg.older ht _ (mem_references_of_element he)
    rw [get_of_get? ht, if_pos ha, he]
    exact congrArg (· ++ "[]") (hs.eq_within hg (Nat.lt_of_lt_of_le hlt (Nat.lt_succ_iff.1 hdepth)))
  | .openArray ht ha he => rw [get_of_get? ht, if_pos ha, he]
  | .generic ht ha hgeneric hs =>
    have hlt : ∀ u ∈ _, u < depth := fun u hu => Nat.lt_of_lt_of_le
      (hg.older ht u (mem_references_of_argument hu)) (Nat.lt_succ_iff.1 hdepth)
    rw [get_of_get? ht, if_neg (ne_true_of_eq_false ha), if_pos hgeneric, hs.eq_within hg hlt]
  | .plain ht ha hgeneric =>
    rw [get_of_get? ht, if_neg (ne_true_of_eq_false ha), if_neg (ne_true_of_eq_false hgeneric)]

theorem SpellsAll.eq_within (hg : g.Ordered) {ids : List TypeId} {names : List String}
    (h : SpellsAll g ids names) {depth : Nat} (hdepth : ∀ u ∈ ids, u < depth) :
    ids.map (spellWithin g depth) = names := by
  match h with
  | .nil => rfl
  | .cons hs hrest =>
    rw [List.map_cons, hs.eq_within hg (hdepth _ List.mem_cons_self),
      hrest.eq_within hg fun u hu => hdepth u (List.mem_cons_of_mem _ hu)]

end

/-- A type is written in one way. -/
theorem Ordered.spells_iff (hg : g.Ordered) (hid : id < g.size) (s : String) :
    Spells g id s ↔ s = g.spell id := by
  constructor
  · exact fun h => (h.eq_within hg hid).symm
  · rintro rfl
    exact hg.spells_within g.size id hid hid

/-! ### Dependencies -/

/-- Keeps a type that is a model of its own beside the owner, unless its full name was found. -/
def keep (owner : TypeInfo) (target : TypeId) (t : TypeInfo) (found : Assoc String TypeId) :
    Assoc String TypeId :=
  if t.fullName = owner.fullName || t.isBuiltin || t.isGenericParameter then found
  else if Assoc.has found t.fullName then found
  else Assoc.put found t.fullName target

mutual

/-- A reference of `owner` to a type adds to what has been found in this way, and every reference
that this takes leads to a type. -/
inductive Collects (g : TypeGraph) (owner : TypeInfo) :
    Assoc String TypeId → TypeId → Assoc String TypeId → Prop
  | visit {found arguments elements : Assoc String TypeId} {target : TypeId} {t : TypeInfo}
      (h : g.get? target = some t)
      (hargs : CollectsAll g owner found t.genericArguments arguments)
      (helement : CollectsAll g owner arguments (if t.isArray then t.element.toList else [])
        elements) :
      Collects g owner found target (keep owner target t elements)

/-- So do several references, one after the other. -/
inductive CollectsAll (g : TypeGraph) (owner : TypeInfo) :
    Assoc String TypeId → List TypeId → Assoc String TypeId → Prop
  | nil {found} : CollectsAll g owner found [] found
  | cons {found middle last : Assoc String TypeId} {target : TypeId} {targets : List TypeId}
      (h : Collects g owner found target middle)
      (hrest : CollectsAll g owner middle targets last) :
      CollectsAll g owner found (target :: targets) last

end

/-- The models that a type needs: what all of its references add, from nothing. -/
inductive Needs (g : TypeGraph) (id : TypeId) : List TypeId → Prop
  | intro {t : TypeInfo} {found : Assoc String TypeId} (h : g.get? id = some t)
      (helement : ∀ element, t.element = some element → (g.get? element).isSome)
      (hfound : CollectsAll g t [] (g.dependencyRoots t) found) : Needs g id (Assoc.values found)

/-- One step into a type, written with one list of what is collected from it. -/
theorem collectWithin_succ (owner : TypeInfo) (depth : Nat) (found : Assoc String TypeId)
    (target : TypeId) :
    collectWithin g owner (depth + 1) found target =
      keep owner target (g.get target)
        ((if (g.get target).isArray then (g.get target).element.toList else []).foldl
          (collectWithin g owner depth)
          ((g.get target).genericArguments.foldl (collectWithin g owner depth) found)) := by
  rw [collectWithin, keep]
  cases (g.get target).isArray <;> cases (g.get target).element <;> rfl

theorem collectsAll_of_forall {owner : TypeInfo}
    {f : Assoc String TypeId → TypeId → Assoc String TypeId} {ids : List TypeId}
    (h : ∀ id ∈ ids, ∀ found, Collects g owner found id (f found id))
    (found : Assoc String TypeId) : CollectsAll g owner found ids (ids.foldl f found) := by
  induction ids generalizing found with
  | nil => exact .nil
  | cons id ids ih =>
    exact .cons (h id List.mem_cons_self found)
      (ih (fun u hu => h u (List.mem_cons_of_mem _ hu)) _)

theorem mem_references_of_nested {u : TypeId}
    (h : u ∈ if t.isArray then t.element.toList else []) : u ∈ t.references := by
  split at h
  · exact mem_references_of_element (Option.mem_toList.1 h)
  · exact absurd h List.not_mem_nil

theorem mem_references_of_root {u : TypeId} (h : u ∈ g.dependencyRoots t) :
    u ∈ t.references := by
  have helement : u ∈ (if t.isArray then t.element.toList.filter fun e => !(g.get e).isBuiltin
      else []) → u ∈ t.element.toList := by
    intro hu
    split at hu
    · exact (List.mem_filter.1 hu).1
    · exact absurd hu List.not_mem_nil
  have harguments : u ∈ (if t.isGeneric && !t.isGenericDefinition then t.genericArguments
      else []) → u ∈ t.genericArguments := by
    intro hu
    split at hu
    · exact hu
    · exact absurd hu List.not_mem_nil
  simp only [dependencyRoots, TypeInfo.references, List.mem_append] at h ⊢
  tauto

/-- Followed to a depth greater than its position, a reference is followed to the end. -/
theorem Ordered.collects_within (hg : g.Ordered) (owner : TypeInfo) (depth : Nat) :
    ∀ id < g.size, id < depth → ∀ found,
      Collects g owner found id (collectWithin g owner depth found id) := by
  induction depth with
  | zero => exact fun id _ h => absurd h (Nat.not_lt_zero id)
  | succ depth ih =>
    intro id hid hdepth found
    have ht := get?_eq_get hid
    have hbelow : ∀ u ∈ (g.get id).references, ∀ found,
        Collects g owner found u (collectWithin g owner depth found u) := by
      intro u hu
      have hlt := hg.older ht u hu
      exact ih u (Nat.lt_trans hlt hid) (Nat.lt_of_lt_of_le hlt (Nat.lt_succ_iff.1 hdepth))
    rw [collectWithin_succ]
    exact .visit ht
      (collectsAll_of_forall (fun u hu => hbelow u (mem_references_of_argument hu)) _)
      (collectsAll_of_forall (fun u hu => hbelow u (mem_references_of_nested hu)) _)

mutual

theorem Collects.eq_within (hg : g.Ordered) {owner : TypeInfo} {id : TypeId}
    {found last : Assoc String TypeId} (h : Collects g owner found id last) {depth : Nat}
    (hdepth : id < depth) : collectWithin g owner depth found id = last := by
  obtain ⟨depth, rfl⟩ := Nat.exists_eq_add_one_of_ne_zero (Nat.ne_zero_of_lt hdepth)
  match h with
  | .visit ht hargs helement =>
    have hlt : ∀ u ∈ _, u < depth := fun u hu => Nat.lt_of_lt_of_le (hg.older ht u hu)
      (Nat.lt_succ_iff.1 hdepth)
    rw [collectWithin_succ, get_of_get? ht,
      hargs.eq_within hg fun u hu => hlt u (mem_references_of_argument hu),
      helement.eq_within hg fun u hu => hlt u (mem_references_of_nested hu)]

theorem CollectsAll.eq_within (hg : g.Ordered) {owner : TypeInfo}
    {found last : Assoc String TypeId} {ids : List TypeId} (h : CollectsAll g owner found ids last)
    {depth : Nat} (hdepth : ∀ u ∈ ids, u < depth) :
    ids.foldl (collectWithin g owner depth) found = last := by
  match h with
  | .nil => rfl
  | .cons hc hrest =>
    rw [List.foldl_cons, hc.eq_within hg (hdepth _ List.mem_cons_self),
      hrest.eq_within hg fun u hu => hdepth u (List.mem_cons_of_mem _ hu)]

end

/-- The models that a type needs are told by its references. -/
theorem Ordered.needs_iff (hg : g.Ordered) (hid : id < g.size) (ids : List TypeId) :
    Needs g id ids ↔ ids = g.dependencies id := by
  have hlt : ∀ {t}, g.get? id = some t → ∀ u ∈ t.references, u < g.size :=
    fun ht u hu => Nat.lt_trans (hg.older ht u hu) hid
  constructor
  · rintro ⟨ht, -, hfound⟩
    rw [dependencies, get_of_get? ht]
    exact congrArg Assoc.values (hfound.eq_within hg fun u hu =>
      hlt ht u (mem_references_of_root hu)).symm
  · rintro rfl
    have ht := get?_eq_get hid
    refine .intro ht (fun element he => ?_) (collectsAll_of_forall (fun u hu found => ?_) _)
    · obtain ⟨t, hget⟩ := exists_get? (hlt ht _ (mem_references_of_element he))
      rw [hget]
      rfl
    · have hu := hlt ht u (mem_references_of_root hu)
      exact hg.collects_within _ g.size u hu hu found

end TypeGraph

end TypedClient
