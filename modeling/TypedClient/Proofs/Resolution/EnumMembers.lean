import TypedClient.Proofs.Resolution.Lasting
import TypedClient.Proofs.Resolution.PropertyTables
import TypedClient.Proofs.Resolution.Standing

/-! The members of enumerations against the literals that schemas list. A literal that is a text
gives a member of that name, with its position; an integer gives one that is called by its position.
This is so for lists of any length, unless one of the integers is too great for the value of a
member: then the enumeration has no members at all, and all of the literals are lost. An enumeration
is resolved without any other schema, so it is the same for its node and for its name, whatever has
been requested before. -/

namespace TypedClient

/-! ### Lists of which each item may give a value -/

section Values

variable {α β : Type} {f : α → Option β} {g : α → β} {x : α} {xs : List α}

theorem mapM_eq_some_map (h : ∀ x ∈ xs, f x = some (g x)) : xs.mapM f = some (xs.map g) := by
  induction xs with
  | nil => rfl
  | cons x xs ih =>
    rw [List.mapM_cons, h x List.mem_cons_self, ih fun y hy => h y (List.mem_cons_of_mem _ hy)]
    rfl

theorem mapM_eq_none (hx : x ∈ xs) (h : f x = none) : xs.mapM f = none := by
  induction xs with
  | nil => cases hx
  | cons y xs ih =>
    rw [List.mapM_cons]
    rcases List.mem_cons.1 hx with rfl | hx
    · rw [h]
      rfl
    · rw [ih hx]
      cases f y <;> rfl

end Values

namespace Resolver

open Schema

variable {literals : List Json}

/-! ### Members of literals -/

/-- Literals of one sort: all are texts, or all are integers. -/
inductive OneSort : List Json → Prop
  | texts (texts : List String) : OneSort (texts.map Json.str)
  | integers (integers : List Int) : OneSort (integers.map fun n => Json.num (.int n))

/-- The members are those of the literals, in order: a text with its position, and an integer under
its position counted from one. -/
structure MembersOf (literals : List Json) (members : List EnumMember) : Prop where
  length : members.length = literals.length
  keys : (members.map EnumMember.key).Nodup
  text : ∀ {i : Nat} {s : String}, literals[i]? = some (.str s) →
    members[i]? = some { key := s, value := i }
  integer : ∀ {i : Nat} {n : Int}, literals[i]? = some (.num (.int n)) →
    members[i]? = some { key := "Item" ++ toString (i + 1), value := n }

/-- No integer among the literals is greater than the value of a member can be. -/
def Fits (literals : List Json) : Prop := ∀ n, .num (.int n) ∈ literals → n ≤ greatestInteger

theorem literalMembers_texts (texts : List String) :
    literalMembers (texts.map Json.str) =
      texts.zipIdx.map fun p => { key := p.1, value := p.2 } := by
  cases texts with
  | nil => rfl
  | cons s texts =>
    unfold literalMembers
    rw [List.map_cons]
    dsimp only
    rw [← List.map_cons, List.zipIdx_map, List.map_map]
    rfl

/-- One integer that is too great takes the members of all the others with it. -/
theorem literalMembers_integers (integers : List Int) :
    literalMembers (integers.map fun n => Json.num (.int n)) =
      if ∀ n ∈ integers, n ≤ greatestInteger then
        integers.zipIdx.map fun p => { key := "Item" ++ toString (p.2 + 1), value := p.1 }
      else [] := by
  have hmembers : literalMembers (integers.map fun n => Json.num (.int n)) =
      (integers.zipIdx.mapM fun p => if p.1 ≤ greatestInteger then
        some (EnumMember.mk ("Item" ++ toString (p.2 + 1)) p.1) else none).getD [] := by
    cases integers with
    | nil => rfl
    | cons first rest =>
      have hcons : Json.num (.int first) :: rest.map (fun n => Json.num (.int n)) =
          (first :: rest).map fun n => Json.num (.int n) := rfl
      unfold literalMembers
      rw [List.map_cons]
      dsimp only
      rw [hcons, List.zipIdx_map, List.mapM_map]
      congr 2
      funext p
      show Option.map _ (if p.1 ≤ greatestInteger then some p.1 else none) = _
      split <;> rfl
  rw [hmembers]
  split
  · next hfits =>
    rw [mapM_eq_some_map fun p hp => if_pos (hfits p.1 (List.fst_mem_of_mem_zipIdx hp))]
    rfl
  · next hlarge =>
    simp only [not_forall] at hlarge
    obtain ⟨n, hn, hlt⟩ := hlarge
    obtain ⟨i, hi⟩ := List.getElem?_of_mem hn
    have hmem : (n, i) ∈ integers.zipIdx := List.mem_zipIdx_iff_getElem?.2 hi
    rw [mapM_eq_none hmem (if_neg hlt)]
    rfl

theorem membersOf_texts {texts : List String} (h : texts.Nodup) :
    MembersOf (texts.map Json.str) (texts.zipIdx.map fun p => { key := p.1, value := p.2 }) where
  length := by simp
  keys := by
    rw [List.map_map]
    show (texts.zipIdx.map Prod.fst).Nodup
    rwa [List.zipIdx_map_fst]
  text {i s} hi := by
    have hs : texts[i]? = some s := by simpa using hi
    simp [hs]
  integer hi := by simp at hi

theorem item_injective : Function.Injective fun i : Nat => "Item" ++ toString (i + 1) := by
  intro i j h
  exact Nat.succ_injective (Nat.repr_injective ((String.append_right_inj _).1 h))

theorem membersOf_integers (integers : List Int) :
    MembersOf (integers.map fun n => Json.num (.int n))
      (integers.zipIdx.map fun p => { key := "Item" ++ toString (p.2 + 1), value := p.1 }) where
  length := by simp
  keys := by
    rw [List.map_map]
    show (integers.zipIdx.map ((fun i => "Item" ++ toString (i + 1)) ∘ Prod.snd)).Nodup
    rw [← List.map_map, List.zipIdx_map_snd]
    exact List.Nodup.map item_injective List.nodup_range'
  text hi := by simp at hi
  integer {i n} hi := by
    have hn : integers[i]? = some n := by simpa using hi
    simp [hn]

/-- Literals that are all texts or all integers have their members, unless an integer is too great;
then there are none. -/
theorem literalMembers_of_oneSort (hsort : OneSort literals) (hdistinct : literals.Nodup) :
    (Fits literals → MembersOf literals (literalMembers literals)) ∧
      (¬ Fits literals → literalMembers literals = []) := by
  cases hsort with
  | texts texts =>
    have hfits : Fits (texts.map Json.str) := by simp [Fits]
    rw [literalMembers_texts]
    exact ⟨fun _ => membersOf_texts (List.Nodup.of_map _ hdistinct), fun h => absurd hfits h⟩
  | integers integers =>
    have hfits : Fits (integers.map fun n => Json.num (.int n)) ↔
        ∀ n ∈ integers, n ≤ greatestInteger := by
      simp [Fits]
    rw [literalMembers_integers, hfits]
    split
    · next h => exact ⟨fun _ => membersOf_integers integers, fun hnot => absurd h hnot⟩
    · next h => exact ⟨fun hall => absurd hall h, fun _ => rfl⟩

theorem not_membersOf_nil (h : literals ≠ []) : ¬ MembersOf literals [] :=
  fun hgives => h (List.length_eq_zero_iff.1 hgives.length.symm)

theorem membersOf_literalMembers_iff (hsort : OneSort literals) (hdistinct : literals.Nodup)
    (h : literals ≠ []) : MembersOf literals (literalMembers literals) ↔ Fits literals := by
  obtain ⟨hgives, hnone⟩ := literalMembers_of_oneSort hsort hdistinct
  refine ⟨fun hgiven => ?_, hgives⟩
  by_contra hlarge
  rw [hnone hlarge] at hgiven
  exact not_membersOf_nil h hgiven

/-! ### Enumerations -/

/-- An enumeration, as its keywords tell, with literals other than null. -/
structure IsEnumeration (fields : Assoc String Json) : Prop where
  form : form fields = .plain
  literals : Schema.literals fields ≠ []

variable {d : Document} {r r' : Resolver} {fields : Assoc String Json} {id : NodeId} {t : TypeId}
  {members : List EnumMember}

theorem kind_of_isEnumeration (hid : d.arena.Holds (.obj fields) id) (h : IsEnumeration fields) :
    ∃ primitive, (d.arena.get id).kind = .enum primitive (Schema.literals fields) := by
  have htold : ∀ {kind}, plainKind? fields (declaration fields).1 = some kind →
      ∃ primitive, kind = .enum primitive (Schema.literals fields) := fun hkind => by
    obtain ⟨primitive, -, heq⟩ := Option.map_eq_some_iff.1 hkind
    rw [if_pos (by simpa using h.literals)] at heq
    exact ⟨primitive, heq.symm⟩
  have hkind := hid.told.kind
  rw [h.form] at hkind
  generalize (d.arena.get id).kind = kind at hkind ⊢
  cases hkind with
  | enum hplain => exact htold hplain
  | primitive hplain => exact htold hplain

theorem resolveKind_of_enum (path : List String) {primitive : Primitive}
    (hk : (d.arena.get id).kind = .enum primitive literals) :
    resolveKind (site d path) id =
      addType (Document.enumType (d.arena.get id) primitive literals) true id := by
  have hkind : ((site d path).node id).kind = .enum primitive literals := hk
  unfold resolveKind
  simp only [hkind]
  rfl

/-- An enumeration with these members. -/
structure Enumerates (members : List EnumMember) (info : TypeInfo) : Prop where
  isEnum : info.isEnum = true
  members : info.members = members

/-- Whatever is resolved for the node on any path is an enumeration with these members. -/
def MakesEnum (d : Document) (id : NodeId) (members : List EnumMember) : Prop :=
  ∃ info, Enumerates members info ∧ ∀ path, resolveKind (site d path) id = addType info true id

theorem makesEnum_of_isEnumeration (hid : d.arena.Holds (.obj fields) id)
    (h : IsEnumeration fields) (hunnamed : hint? fields "enumValues" = none) :
    MakesEnum d id (literalMembers (Schema.literals fields)) := by
  obtain ⟨primitive, hk⟩ := kind_of_isEnumeration hid h
  obtain ⟨location, hconstants⟩ := hid.told.hints.enumValues
  have hnone : (d.arena.get id).hints.enumValues = none := by
    unfold namedConstants at hconstants
    rw [hunnamed] at hconstants
    exact (Except.ok.inj hconstants).symm
  refine ⟨_, ⟨rfl, ?_⟩, fun path => resolveKind_of_enum path hk⟩
  show (d.arena.get id).hints.enumValues.getD _ = _
  rw [hnone]
  rfl

/-! ### What the node has after any requests -/

/-- If the node has a type, it is an enumeration with these members. -/
def HasEnum (id : NodeId) (members : List EnumMember) (r : Resolver) : Prop :=
  ∀ t, r.Typed id t → ∃ info, r.graph.get? t = some info ∧ Enumerates members info

/-- What comes after such a state is one, too. -/
def KeepsEnum (id : NodeId) (members : List EnumMember) (r r' : Resolver) : Prop :=
  HasEnum id members r → HasEnum id members r'

theorem HasEnum.of_graph (h : HasEnum id members r) (hmemo : r'.memo = r.memo)
    (hgraph : ∀ {t info}, r.graph.get? t = some info → Enumerates members info →
      ∃ info', r'.graph.get? t = some info' ∧ Enumerates members info') :
    HasEnum id members r' := by
  intro t ht
  rw [Typed, hmemo] at ht
  obtain ⟨info, hinfo, henum⟩ := h t ht
  exact hgraph hinfo henum

theorem going_keepsEnum (id : NodeId) (members : List EnumMember) :
    Going (KeepsEnum id members) where
  refl _ h := h
  trans h h' henum := h' (h henum)
  intrinsic name r h := h.of_graph rfl fun hinfo henum =>
    ⟨_, (TypeGraph.get?_intrinsic_of_lt name (TypeGraph.lt_size_of_get? hinfo)).trans hinfo, henum⟩
  adds t nameable node r h := by
    have hkept : ∀ {u info}, r.graph.get? u = some info → (r.graph.insert t).2.get? u = some info :=
      fun hinfo => (TypeGraph.get?_insert_of_lt t (TypeGraph.lt_size_of_get? hinfo)).trans hinfo
    cases nameable with
    | true => exact h.of_graph rfl fun hinfo henum => ⟨_, hkept hinfo, henum⟩
    | false => exact h.of_graph rfl fun hinfo henum => ⟨_, hkept hinfo, henum⟩

/-- A name changes nothing of an enumeration but what it is called. -/
theorem keepsEnum_settle (name : String) (node : NodeId) (type : TypeId) :
    Goes (KeepsEnum id members) (settle name node type) := by
  have hG := going_keepsEnum id members
  have hregister : ∀ r, KeepsEnum id members r
      { r with registry := Assoc.put r.registry name type } := fun r h => h.of_graph rfl
    fun hinfo henum => ⟨_, hinfo, henum⟩
  refine hG.bind (fun r h => ?_) fun _ => hG.bind hregister fun _ r => hG.refl r
  rcases applyName_cases name node type r with hsame | ⟨parsed, -, hnamed⟩
  · rw [hsame]
    exact h
  · rw [hnamed]
    refine h.of_graph rfl fun {u info} hinfo henum => ?_
    by_cases hu : type = u
    · subst hu
      show ∃ info', (r.graph.set type _).get? type = some info' ∧ _
      rw [TypeGraph.get?_set, if_pos rfl, hinfo, TypeGraph.get_of_get? hinfo]
      exact ⟨_, rfl, henum.isEnum, henum.members⟩
    · exact ⟨info, ((TypeGraph.get?_set ..).trans (if_neg hu)).trans hinfo, henum⟩

theorem keepsEnum_node (hd : d.Forest) (hmakes : MakesEnum d id members) {path : List String}
    {x : NodeId} (hkind : Goes (KeepsEnum id members) (resolveKind (site d path) x)) :
    Goes (KeepsEnum id members) (resolveNode d path x) := by
  intro r henum
  have hafter := hkind r henum
  rcases outcome_resolveNode hd path x r with
    ⟨t, -, ho⟩ | ⟨-, ⟨e, r', hfail, ho⟩ | ⟨t, r', hmade, ho⟩⟩
  · rw [ho]
    exact henum
  · rw [hfail] at hafter
    rw [ho]
    exact hafter
  · rw [hmade] at hafter
    rw [ho]
    intro u hu
    rw [Typed, Assoc.get?_put] at hu
    split at hu
    · next heq =>
      -- the node itself: what was made for it is the last type
      subst heq
      cases hu
      obtain ⟨info, hinfo, hkinds⟩ := hmakes
      rw [hkinds path] at hmade
      cases hmade
      exact ⟨info, (TypeGraph.get?_insert r.graph info _).trans (if_pos rfl), hinfo⟩
    · exact hafter u hu

theorem goingOn_keepsEnum (hd : d.Forest) (hmakes : MakesEnum d id members) :
    GoingOn d (fun _ => True) (fun _ => True) (KeepsEnum id members) where
  toGoing := going_keepsEnum id members
  cycles _ _ h := h
  settle name node t := keepsEnum_settle name node t
  node _ hkind := keepsEnum_node hd hmakes (hkind _ (Nat.le_refl _) trivial)
  next _ _ := trivial
  root _ := trivial

theorem hasEnum_served (hd : d.Forest) (hmakes : MakesEnum d id members)
    (requests : List Request) : HasEnum id members (served d requests) := by
  induction requests using List.reverseRecOn with
  | nil => exact fun t h => by cases h
  | append_singleton requests request ih =>
    rw [served_concat]
    exact (goingOn_keepsEnum hd hmakes).goes_request hd request (fun _ _ => trivial) _ ih

/-! ### Nodes and names -/

/-- The resolver has this type for the schema, by its node or by a name that declares it. -/
def HasType (d : Document) (r : Resolver) (id : NodeId) (t : TypeId) : Prop :=
  r.Typed id t ∨ ∃ name, Assoc.get? d.schemas name = some id ∧ Assoc.get? r.registry name = some t

/-- An enumeration is resolved whatever has been resolved before, and no name is registered while it
is. -/
theorem outcome_of_makesEnum (hd : d.Forest) (hmakes : MakesEnum d id members)
    (path : List String) (r : Resolver) :
    ∃ t r', outcome (resolveNode d path id) r = (.ok t, r') ∧ r'.registry = r.registry := by
  obtain ⟨info, -, hkinds⟩ := hmakes
  rcases outcome_resolveNode hd path id r with
    ⟨t, -, ho⟩ | ⟨-, ⟨e, r', hfail, -⟩ | ⟨t, r', hmade, ho⟩⟩
  · exact ⟨t, r, ho, rfl⟩
  · rw [hkinds path] at hfail
    cases hfail
  · rw [hkinds path] at hmade
    cases hmade
    exact ⟨_, _, ho, rfl⟩

theorem exists_type_of_makesEnum (hd : d.Forest) (hmakes : MakesEnum d id members)
    (path : List String) (r : Resolver) :
    ∃ t r', outcome (resolveNode d path id) r = (.ok t, r') ∧ r'.Typed id t := by
  obtain ⟨t, r', ho, -⟩ := outcome_of_makesEnum hd hmakes path r
  exact ⟨t, r', ho, memo_of_resolveNode hd ho⟩

theorem not_forksAt_of_makesEnum (hd : d.Forest) (hmakes : MakesEnum d id members)
    {name : String} : ¬ ForksAt d r name id := by
  rintro ⟨hnew, hsome, -⟩
  obtain ⟨t, r', ho, hregistry⟩ := outcome_of_makesEnum hd hmakes [] r
  rw [outcome_run_node, node, ho, hregistry, hnew] at hsome
  cases hsome

/-- After any requests, a name for an enumeration has the type of the node. -/
theorem linked_served (hd : d.Forest) (hmakes : MakesEnum d id members) {name : String}
    (hn : Assoc.get? d.schemas name = some id) (requests : List Request) :
    Linked name id (served d requests) := by
  induction requests using List.reverseRecOn with
  | nil => exact fun h => by cases h
  | append_singleton requests request ih =>
    rw [served_concat]
    cases request with
    | builtin other => exact ih
    | call asked =>
      exact Linked.run hd hn asked (served_all hd requests).bounded ih
        fun _ => not_forksAt_of_makesEnum hd hmakes

theorem typed_of_hasType (hd : d.Forest) (hmakes : MakesEnum d id members)
    {requests : List Request} (h : HasType d (served d requests) id t) :
    (served d requests).Typed id t := by
  rcases h with h | ⟨name, hn, h⟩
  · exact h
  · exact linked_served hd hmakes hn requests h

/-- A name for it that can be read is resolved as well. -/
theorem exists_named_of_makesEnum (hd : d.Forest) (hmakes : MakesEnum d id members)
    {name : String} (hn : Assoc.get? d.schemas name = some id) {parsed : TypeName}
    (hp : TypeName.parse name = .ok parsed) (r : Resolver) :
    ∃ t r', outcome (named d name) r = (.ok t, r') ∧ Assoc.get? r'.registry name = some t := by
  rcases outcome_resolveReference d [] name r with
    ⟨t, hregistered, ho⟩ | ⟨-, ⟨hmem, -⟩ | ⟨-, hnone, -⟩ | ⟨root, -, hroot, ho⟩⟩
  · exact ⟨t, r, ho, hregistered⟩
  · cases hmem
  · rw [hn] at hnone
    cases hnone
  · rw [hn] at hroot
    cases hroot
    obtain ⟨t, r₁, hnode, -⟩ := exists_type_of_makesEnum hd hmakes ([] ++ [name]) r
    rw [outcome_bind, hnode] at ho
    dsimp only at ho
    rcases outcome_settle_exact name id t r₁ with ⟨-, hunread, -⟩ | ⟨-, graph, -, -, hsettled⟩
    · exact absurd hp (hunread parsed)
    · rw [hsettled] at ho
      exact ⟨t, _, ho, Assoc.get?_put_self ..⟩

/-- The members of an enumeration without named constants, whose literals are distinct and all texts
or all integers. The schema is resolved, by its node or by any name for it that can be read,
whatever has been resolved before; and after any requests, those that failed included, every type
that there is for it is an enumeration. Its members are those of the literals, in order, exactly if
no integer among these is greater than the value of a member can be. Otherwise there is none. -/
theorem enum_members_iff {root : Json} (h : Document.ofJson root = .ok d)
    (hid : d.arena.Holds (.obj fields) id) (henum : IsEnumeration fields)
    (hunnamed : hint? fields "enumValues" = none) (hsort : OneSort (Schema.literals fields))
    (hdistinct : (Schema.literals fields).Nodup) :
    (∀ path r, ∃ t r', outcome (resolveNode d path id) r = (.ok t, r') ∧ r'.Typed id t) ∧
    (∀ name parsed, Assoc.get? d.schemas name = some id → TypeName.parse name = .ok parsed →
      ∀ r, ∃ t r', outcome (named d name) r = (.ok t, r') ∧
        Assoc.get? r'.registry name = some t) ∧
    ∀ requests t, HasType d (served d requests) id t →
      ∃ info, (served d requests).graph.get? t = some info ∧ info.isEnum = true ∧
        (MembersOf (Schema.literals fields) info.members ↔ Fits (Schema.literals fields)) ∧
        (¬ Fits (Schema.literals fields) → info.members = []) := by
  have hd := Document.forest_of_ofJson h
  have hmakes := makesEnum_of_isEnumeration hid henum hunnamed
  refine ⟨exists_type_of_makesEnum hd hmakes, fun name parsed hn hp =>
    exists_named_of_makesEnum hd hmakes hn hp, fun requests t ht => ?_⟩
  obtain ⟨info, hinfo, hmade⟩ :=
    hasEnum_served hd hmakes requests t (typed_of_hasType hd hmakes ht)
  refine ⟨info, hinfo, hmade.isEnum, ?_, ?_⟩
  · rw [hmade.members]
    exact membersOf_literalMembers_iff hsort hdistinct henum.literals
  · rw [hmade.members]
    exact (literalMembers_of_oneSort hsort hdistinct).2

theorem served_node {t : TypeId} (ho : outcome (resolveNode d [] id) {} = (.ok t, r')) :
    served d [.call (.node id)] = r' := by
  show (outcome (some <$> resolveNode d [] id) {}).2 = r'
  rw [outcome_map, ho]

/-- Levels from one on, of which the last is given, and null. -/
def levels (last : Int) : Assoc String Json :=
  [("type", .str "integer"), ("enum", .arr [.num (.int 1), .num (.int last), .null])]

def withLevels (last : Int) : Json := Projection.documentWith [("Level", levels last)]

theorem get?_withLevels (last : Int) :
    Assoc.get? (Document.namedSchemas (withLevels last)) "Level" = some (.obj (levels last)) :=
  rfl

theorem literals_levels (last : Int) :
    Schema.literals (levels last) = [1, last].map fun n => Json.num (.int n) := rfl

theorem isEnumeration_levels (last : Int) : IsEnumeration (levels last) := by
  refine ⟨rfl, ?_⟩
  rw [literals_levels]
  exact List.cons_ne_nil _ _

theorem oneSort_levels (last : Int) : OneSort (Schema.literals (levels last)) :=
  .integers [1, last]

theorem nodup_levels {last : Int} (h : last ≠ 1) : (Schema.literals (levels last)).Nodup := by
  rw [literals_levels]
  refine List.Nodup.map (fun m n heq => ?_) (by simpa using h.symm)
  cases heq
  rfl

theorem fits_levels_iff (last : Int) :
    Fits (Schema.literals (levels last)) ↔ last ≤ greatestInteger := by
  rw [literals_levels]
  simp [Fits, greatestInteger]

/-- The greatest integer that a member can have is one of its levels. -/
theorem enum_members_iff_levels :
    ∃ d id t info, Document.ofJson (withLevels greatestInteger) = .ok d ∧
      HasType d (served d [.call (.node id)]) id t ∧
      (served d [.call (.node id)]).graph.get? t = some info ∧
      MembersOf (Schema.literals (levels greatestInteger)) info.members := by
  obtain ⟨d, id, t, r', hd, hid, ho⟩ := exists_call (get?_withLevels greatestInteger)
    (by decide +kernel)
  have hserved := served_node ho
  have ht : HasType d (served d [.call (.node id)]) id t := by
    rw [hserved]
    exact .inl (memo_of_resolveNode (Document.forest_of_ofJson hd) ho)
  obtain ⟨-, -, hmembers⟩ := enum_members_iff hd hid (isEnumeration_levels _) rfl
    (oneSort_levels _) (nodup_levels (by decide))
  obtain ⟨info, hinfo, -, hiff, -⟩ := hmembers _ t ht
  exact ⟨d, id, t, info, hd, ht, hinfo, hiff.2 ((fits_levels_iff _).2 (Int.le_refl _))⟩

/-- With one more than that, the enumeration has no members. -/
theorem no_members_of_levels :
    ∃ d id t info, Document.ofJson (withLevels (greatestInteger + 1)) = .ok d ∧
      d.arena.Holds (.obj (levels (greatestInteger + 1))) id ∧
      IsEnumeration (levels (greatestInteger + 1)) ∧
      hint? (levels (greatestInteger + 1)) "enumValues" = none ∧
      OneSort (Schema.literals (levels (greatestInteger + 1))) ∧
      (Schema.literals (levels (greatestInteger + 1))).Nodup ∧
      (served d [.call (.node id)]).Typed id t ∧
      (served d [.call (.node id)]).graph.get? t = some info ∧
      info.members = [] ∧
      ¬ MembersOf (Schema.literals (levels (greatestInteger + 1))) info.members := by
  obtain ⟨d, id, t, r', hd, hid, ho⟩ := exists_call (get?_withLevels (greatestInteger + 1))
    (by decide +kernel)
  have hforest := Document.forest_of_ofJson hd
  have henum := isEnumeration_levels (greatestInteger + 1)
  have hserved := served_node ho
  have ht : (served d [.call (.node id)]).Typed id t := by
    rw [hserved]
    exact memo_of_resolveNode hforest ho
  obtain ⟨info, hinfo, hmade⟩ :=
    hasEnum_served hforest (makesEnum_of_isEnumeration hid henum rfl) _ t ht
  have hnone : info.members = [] := by
    rw [hmade.members]
    rfl
  refine ⟨d, id, t, info, hd, hid, henum, rfl, oneSort_levels _, nodup_levels (by decide), ht,
    hinfo, hnone, ?_⟩
  rw [hnone]
  exact not_membersOf_nil henum.literals

end Resolver

end TypedClient
