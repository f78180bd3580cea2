import TypedClient.Proofs.Resolution.Cycles
import TypedClient.Proofs.Resolution.Identity
import TypedClient.Proofs.Resolution.Standing

/-! Calls by name after calls that failed. What a failed call has registered stays, and so does the
`any` that stands where a reference was cut; so a schema that leads back to one that failed may get
a type later that it does not get at first. Nothing else is lost or gained by a failure: a schema
from which references lead to nothing at fault gets a type at any time, and what is registered is
not at fault itself. -/

namespace TypedClient

open Relation

/-- Of the schemas that references from `name` lead to, those that apply a generic definition have
names that can be read. -/
def Document.ReadableFrom (d : Document) (name : String) : Prop :=
  ∀ other root, ReflTransGen d.Follows name other → Assoc.get? d.schemas other = some root →
    d.adoption root = .applied → ∃ parsed, TypeName.parse other = .ok parsed

namespace Resolver

variable {d : Document} {name : String}

/-! ### Calls in a row -/

/-- The state after these calls by name, some of which may have failed. -/
def afterNames (d : Document) (calls : List String) : Resolver := after d (calls.map .named)

/-- After these calls, one for `name` gives a type. -/
def Answered (d : Document) (calls : List String) (name : String) : Prop :=
  ∃ t, (outcome (named d name) (afterNames d calls)).1 = .ok t

instance (d : Document) (calls : List String) (name : String) : Decidable (Answered d calls name) :=
  decidable_of_iff (((outcome (named d name) (afterNames d calls)).1.toOption).isSome = true) <| by
    unfold Answered
    cases (outcome (named d name) (afterNames d calls)).1 with
    | error e => exact ⟨nofun, nofun⟩
    | ok t => exact ⟨fun _ => ⟨t, rfl⟩, fun _ => rfl⟩

/-- One of the calls was for this schema, and it failed. -/
def Failed (d : Document) (calls : List String) (name : String) : Prop :=
  ∃ before rest, calls = before ++ name :: rest ∧ ¬ Answered d before name

/-- The schema is flawed, and a call for one that leads to it has failed. -/
def Blamed (d : Document) (calls : List String) (name : String) : Prop :=
  d.Flawed name ∧ ∃ asked, Failed d calls asked ∧ ReflTransGen d.Follows asked name

variable {calls : List String}

theorem afterNames_concat (calls : List String) (name : String) :
    afterNames d (calls ++ [name]) = (outcome (named d name) (afterNames d calls)).2 := by
  rw [afterNames, List.map_append, List.map_singleton, after_concat, Call.run, outcome_map]
  rfl

theorem Failed.concat (last : String) (h : Failed d calls name) :
    Failed d (calls ++ [last]) name := by
  obtain ⟨before, rest, rfl, hfail⟩ := h
  exact ⟨before, rest ++ [last], by rw [List.append_assoc]; rfl, hfail⟩

/-- A call that failed is one of those before the last one, or the last one. -/
theorem Failed.of_concat {last : String} (h : Failed d (calls ++ [last]) name) :
    Failed d calls name ∨ (name = last ∧ ¬ Answered d calls name) := by
  obtain ⟨before, rest, hsplit, hfail⟩ := h
  rcases List.eq_nil_or_concat rest with rfl | ⟨rest, final, rfl⟩
  · obtain ⟨rfl, hlast⟩ := List.append_inj' hsplit rfl
    cases hlast
    exact .inr ⟨rfl, hfail⟩
  · rw [List.concat_eq_append, ← List.cons_append, ← List.append_assoc] at hsplit
    obtain ⟨rfl, -⟩ := List.append_inj' hsplit rfl
    exact .inl ⟨before, rest, rfl, hfail⟩

theorem not_failed_nil (name : String) : ¬ Failed d [] name := by
  rintro ⟨before, rest, hsplit, -⟩
  exact List.append_ne_nil_of_right_ne_nil _ (List.cons_ne_nil _ _) hsplit.symm

theorem Blamed.concat (last : String) (h : Blamed d calls name) :
    Blamed d (calls ++ [last]) name := by
  obtain ⟨hflawed, asked, hfailed, hlead⟩ := h
  exact ⟨hflawed, asked, hfailed.concat last, hlead⟩

section Calls

variable (hd : d.Forest)

include hd

/-- Each call ends where it began, and blames when it fails only the schemas that it leads to. -/
theorem standing_afterNames (calls : List String) :
    Standing d [] (Blamed d calls) (afterNames d calls) := by
  induction calls using List.reverseRecOn with
  | nil => exact (standing_initial d).mono fun name h => h.imp_right False.elim
  | append_singleton calls name ih =>
    rw [afterNames_concat]
    rcases hrun : outcome (named d name) (afterNames d calls) with ⟨e | t, r⟩
    · have hfailed : Failed d (calls ++ [name]) name := by
        refine ⟨calls, [], rfl, ?_⟩
        rintro ⟨t, ht⟩
        rw [hrun] at ht
        cases ht
      exact ((tries_reference hd (fun _ => Blamed.concat name) fun other hlead hflawed =>
        ⟨hflawed, name, hfailed, hlead⟩).fails ih hrun).1
    · have hcall := tries_named hd (fun _ (h : Blamed d calls _) => h.1) name
      exact (hcall.gives ih hrun).1.mono fun other => Or.imp_right (Blamed.concat name)

theorem sound_afterNames (calls : List String) : Sound d (afterNames d calls) := by
  induction calls using List.reverseRecOn with
  | nil => exact Sound.initial d
  | append_singleton calls name ih =>
    rw [afterNames_concat]
    have hcall := resolves_named hd name _ (standing_afterNames hd calls).bounded trivial
    exact invariant_of_steps Sound.step hcall.1.steps ih

/-- A call that gives a type registers the schema. -/
theorem registered_of_answered (h : Answered d calls name) :
    (Assoc.get? (afterNames d (calls ++ [name])).registry name).isSome := by
  obtain ⟨t, ht⟩ := h
  have hcall := tries_named hd (fun _ (h : Blamed d calls _) => h.1) name
  rw [afterNames_concat]
  exact (hcall.gives (standing_afterNames hd calls) (Prod.ext ht rfl)).2

/-- A call fails only for a flawed schema. -/
theorem answered_of_not_flawed (calls : List String) (h : ¬ d.Flawed name) :
    Answered d calls name := by
  rcases hrun : outcome (named d name) (afterNames d calls) with ⟨e | t, r⟩
  · have hcall := tries_named hd (fun _ (h : Blamed d calls _) => h.1) name
    exact absurd (hcall.fails (standing_afterNames hd calls) hrun).2 h
  · exact ⟨t, by rw [hrun]⟩

/-- A schema that is registered is intact, if its name can be read where that depends on a generic
definition. -/
theorem intact_of_registered {calls : List String}
    (hreg : (Assoc.get? (afterNames d calls).registry name).isSome)
    (hread : ∀ root, Assoc.get? d.schemas name = some root → d.adoption root = .applied →
      ∃ parsed, TypeName.parse name = .ok parsed) : d.Intact name := by
  obtain ⟨t, ht⟩ := Option.isSome_iff_exists.1 hreg
  have hstanding := standing_afterNames hd calls
  have hsound := sound_afterNames hd calls
  obtain ⟨root, hroot, halways⟩ := hstanding.registry ht
  obtain ⟨root', hroot', hm⟩ := hsound.root ht
  rw [hroot] at hroot'
  cases hroot'
  refine ⟨root, hroot, fun id hwithin => ?_, fun hname => ?_⟩
  · obtain ⟨u, hu⟩ := Option.isSome_iff_exists.1 (hsound.within hm hwithin)
    exact (hstanding.memo hu).source
  · cases hadoption : d.adoption root with
    | always => exact halways hadoption
    | applied => exact hread root hroot hadoption
    | never => exact absurd hadoption hname

/-- What a registered schema follows is registered too, or a call that leads there has failed, and
the two schemas are on one cycle. -/
theorem registered_of_follows_after {other : String}
    (hreg : (Assoc.get? (afterNames d calls).registry name).isSome) (hf : d.Follows name other) :
    (Assoc.get? (afterNames d calls).registry other).isSome ∨
      (Blamed d calls other ∧ TransGen d.Follows other other) := by
  obtain ⟨t, ht⟩ := Option.isSome_iff_exists.1 hreg
  have hsound := sound_afterNames hd calls
  obtain ⟨id, ⟨root, hroot, hwithin⟩, hrefers⟩ := id hf
  obtain ⟨root', hroot', hm⟩ := hsound.root ht
  rw [hroot] at hroot'
  cases hroot'
  obtain ⟨u, hu⟩ := Option.isSome_iff_exists.1 (hsound.within hm hwithin)
  rcases hsound.reference hu hrefers with hother | ⟨-, -, owner, howner, hback⟩
  · exact .inl (by rw [hother]; rfl)
  · rw [hd.inSchema_unique howner ⟨root, hroot, hwithin⟩] at hback
    have htied := (standing_afterNames hd calls).tied (by rw [hu]; rfl) hrefers
    exact htied.imp_right fun h =>
      ⟨h.resolve_left List.not_mem_nil, .tail' hback hf⟩

/-- A schema all of whose followers are registered is not flawed. -/
theorem not_flawed_of_registered {calls : List String}
    (hreg : ∀ other, ReflTransGen d.Follows name other →
      (Assoc.get? (afterNames d calls).registry other).isSome)
    (hread : d.ReadableFrom name) : ¬ d.Flawed name := by
  rintro ⟨other, hlead, hother⟩
  exact hother (intact_of_registered hd (hreg other hlead) fun root => hread other root hlead)

/-- From a registered schema on all schemas are registered, when none on a cycle is blamed. -/
theorem registered_of_reached {other : String}
    (hreg : (Assoc.get? (afterNames d calls).registry name).isSome)
    (hblamed : ∀ next, ReflTransGen d.Follows name next → TransGen d.Follows next next →
      ¬ Blamed d calls next) (hlead : ReflTransGen d.Follows name other) :
    (Assoc.get? (afterNames d calls).registry other).isSome := by
  induction hlead with
  | refl => exact hreg
  | @tail last next hlast hf ih =>
    rcases registered_of_follows_after hd ih hf with h | ⟨h, hcycle⟩
    · exact h
    · exact absurd h (hblamed next (hlast.tail hf) hcycle)

/-- A schema that has got its type at first is not flawed. -/
theorem not_flawed_of_answered (hread : d.ReadableFrom name) (h : Answered d [] name) :
    ¬ d.Flawed name := by
  have hreg := registered_of_answered hd h
  refine not_flawed_of_registered hd (fun other => registered_of_reached hd hreg ?_) hread
  rintro next - - ⟨-, asked, hfailed, -⟩
  rcases hfailed.of_concat with hfailed | ⟨rfl, hfail⟩
  · exact not_failed_nil asked hfailed
  · exact hfail h

end Calls

/-- A call for a schema at first, and after any calls by name on the same resolver, some of which
may have failed, where names can be read as far as references lead. What gets a type at first gets
one afterwards; what gets one afterwards gets one at first if and only if all schemas that
references from it lead to are registered then; and it is the same at both times unless the schema
and a call that failed lead to one cycle. -/
theorem answered_after {root : Json} (h : Document.ofJson root = .ok d) (calls : List String)
    (name : String) (hread : d.ReadableFrom name) :
    (Answered d [] name → Answered d calls name) ∧
    (Answered d calls name → (Answered d [] name ↔ ∀ other, ReflTransGen d.Follows name other →
      (Assoc.get? (afterNames d (calls ++ [name])).registry other).isSome)) ∧
    ((∀ asked other, Failed d calls asked → ReflTransGen d.Follows asked other →
        ReflTransGen d.Follows name other → ¬ TransGen d.Follows other other) →
      (Answered d calls name ↔ Answered d [] name)) := by
  have hd := Document.forest_of_ofJson h
  have hfirst : Answered d [] name → ¬ d.Flawed name := not_flawed_of_answered hd hread
  have hlater : Answered d [] name → Answered d calls name := fun hfresh =>
    answered_of_not_flawed hd calls (hfirst hfresh)
  have hback : Answered d calls name → (∀ other, ReflTransGen d.Follows name other →
      TransGen d.Follows other other → ¬ Blamed d (calls ++ [name]) other) →
      ∀ other, ReflTransGen d.Follows name other →
        (Assoc.get? (afterNames d (calls ++ [name])).registry other).isSome :=
    fun hanswered hblamed other hlead =>
      registered_of_reached hd (registered_of_answered hd hanswered) hblamed hlead
  have hnow : (∀ other, ReflTransGen d.Follows name other →
      (Assoc.get? (afterNames d (calls ++ [name])).registry other).isSome) → Answered d [] name :=
    fun hreg => answered_of_not_flawed hd [] (not_flawed_of_registered hd hreg hread)
  refine ⟨hlater, fun hanswered => ⟨fun hfresh => ?_, hnow⟩, fun happly => ⟨fun hanswered => ?_,
    hlater⟩⟩
  · refine hback hanswered fun other hlead _ hblamed => hfirst hfresh ?_
    obtain ⟨last, hrest, hlast⟩ := hblamed.1
    exact ⟨last, hlead.trans hrest, hlast⟩
  · refine hnow (hback hanswered ?_)
    rintro other hlead hcycle ⟨-, asked, hfailed, hasked⟩
    rcases hfailed.of_concat with hfailed | ⟨rfl, hfail⟩
    · exact happly asked other hfailed hasked hlead hcycle
    · exact hfail hanswered

/-- A list of pets, whose owner refers to the list and to a home that does not exist. -/
def petList : Json := .obj [("openapi", .str "3.0.0"), ("components", .obj [("schemas", .obj [
  ("List", .obj [("type", .str "object"), ("x-isGenericType", .bool true),
    ("x-isGenericTypeDefinition", .bool true)]),
  ("List<Pet>", .obj [("type", .str "object"), ("x-isGenericType", .bool true),
    ("x-genericTypeDefinition", .obj [("$ref", .str "#/components/schemas/List")]),
    ("x-genericArguments", .arr [.obj [("$ref", .str "#/components/schemas/Pet")]])]),
  ("Pet", .obj [("type", .str "object"), ("properties", .obj [
    ("owner", .obj [("$ref", .str "#/components/schemas/Owner")])])]),
  ("Owner", .obj [("type", .str "object"), ("properties", .obj [
    ("pets", .obj [("$ref", .str "#/components/schemas/List<Pet>")]),
    ("home", .obj [("$ref", .str "#/components/schemas/Home")])])])])])]

/-- After the call for the owner has failed, the list gets a type that it does not get at first, and
a schema that it leads to is missing. What leads to no fault gets its type as ever. -/
theorem answered_after_petList :
    ∃ d, Document.ofJson petList = .ok d ∧ Answered d ["Owner"] "List<Pet>" ∧
      ¬ Answered d [] "List<Pet>" ∧
      (∃ other, ReflTransGen d.Follows "List<Pet>" other ∧
        Assoc.get? (afterNames d ["Owner", "List<Pet>"]).registry other = none) ∧
      Answered d ["Owner"] "List" := by
  have hrun : (Document.ofJson petList).map (fun d =>
      (decide (Answered d ["Owner"] "List<Pet>"), decide (Answered d [] "List<Pet>"),
        decide (Answered d [] "List"), d.schemas.all fun p =>
          d.adoption p.2 ≠ .applied || (TypeName.parse p.1).toOption.isSome)) =
      .ok (true, false, true, true) := by
    decide +kernel
  cases hd : Document.ofJson petList with
  | error e => rw [hd] at hrun; cases hrun
  | ok d =>
    rw [hd] at hrun
    simp only [Except.map, Except.ok.injEq, Prod.mk.injEq, decide_eq_true_eq,
      decide_eq_false_iff_not] at hrun
    obtain ⟨hlater, hfirst, hlist, hnames⟩ := hrun
    have hread : ∀ name, d.ReadableFrom name := by
      intro name other node _ hn happlied
      have hname := List.all_eq_true.1 hnames _ (Assoc.mem_of_get? hn)
      cases hp : TypeName.parse other with
      | ok parsed => exact ⟨parsed, rfl⟩
      | error e =>
        simp only [happlied, hp, ne_eq, not_true_eq_false, decide_false, Bool.false_or] at hname
        cases hname
    obtain ⟨-, hexact, -⟩ := answered_after hd ["Owner"] "List<Pet>" (hread _)
    obtain ⟨hkept, -, -⟩ := answered_after hd ["Owner"] "List" (hread _)
    obtain ⟨other, hother⟩ := not_forall.1 (mt (hexact hlater).2 hfirst)
    obtain ⟨hlead, hnone⟩ := Classical.not_imp.1 hother
    exact ⟨d, rfl, hlater, hfirst, ⟨other, hlead, by simpa using hnone⟩, hkept hlist⟩

/-- A pet whose owner refers back to it and to a home that does not exist. -/
def stranded : Json := .obj [("openapi", .str "3.0.0"), ("components", .obj [("schemas", .obj [
  ("Pet", .obj [("type", .str "object"), ("properties", .obj [
    ("owner", .obj [("$ref", .str "#/components/schemas/Owner")])])]),
  ("Owner", .obj [("type", .str "object"), ("properties", .obj [
    ("pet", .obj [("$ref", .str "#/components/schemas/Pet")]),
    ("home", .obj [("$ref", .str "#/components/schemas/Home")])])])])])]

/-- A failed call for the owner lets the pet have a type. -/
theorem failure_changes_answers :
    ¬ ∀ (root : Json) (d : Document), Document.ofJson root = .ok d →
      ∀ calls name, Answered d calls name ↔ Answered d [] name := by
  intro hclaim
  have hrun : (Document.ofJson stranded).map (fun d =>
      (decide (Answered d ["Owner"] "Pet"), decide (Answered d [] "Pet"))) = .ok (true, false) := by
    decide +kernel
  cases hd : Document.ofJson stranded with
  | error e => rw [hd] at hrun; cases hrun
  | ok d =>
    rw [hd] at hrun
    simp only [Except.map, Except.ok.injEq, Prod.mk.injEq, decide_eq_true_eq,
      decide_eq_false_iff_not] at hrun
    exact hrun.2 ((hclaim stranded d hd ["Owner"] "Pet").1 hrun.1)

/-- Two schemas whose names cannot be read apply definitions that are cut on some ways to them. -/
def unreadable : Json := .obj [("openapi", .str "3.0.0"), ("components", .obj [("schemas", .obj [
  ("Alias", .obj [("$ref", .str "#/components/schemas/Loop")]),
  ("Loop", .obj [("type", .str "object"), ("properties", .obj [
    ("alias", .obj [("$ref", .str "#/components/schemas/Alias")])])]),
  ("Of[", .obj [("type", .str "object"), ("x-isGenericType", .bool true),
    ("x-genericTypeDefinition", .obj [("$ref", .str "#/components/schemas/Alias")])]),
  ("Page", .obj [("type", .str "object"), ("properties", .obj [
    ("of", .obj [("$ref", .str "#/components/schemas/Page[")])])]),
  ("Page[", .obj [("type", .str "object"), ("x-isGenericType", .bool true),
    ("x-genericTypeDefinition", .obj [("$ref", .str "#/components/schemas/Page")])]),
  ("Both", .obj [("type", .str "object"), ("properties", .obj [
    ("page", .obj [("$ref", .str "#/components/schemas/Page")]),
    ("of", .obj [("$ref", .str "#/components/schemas/Page[")])])])])])]

/-- Names that cannot be read are not always looked at: a call that succeeds lets a schema get a
type that it does not get at first, and one that fails keeps a schema from the type that it gets at
first. -/
theorem unreadable_names_differ :
    ∃ d, Document.ofJson unreadable = .ok d ∧
      (Answered d [] "Loop" ∧ Answered d ["Loop"] "Of[" ∧ ¬ Answered d [] "Of[") ∧
      Answered d [] "Both" ∧ ¬ Answered d ["Page["] "Both" := by
  have hrun : (Document.ofJson unreadable).map (fun d => decide
      ((Answered d [] "Loop" ∧ Answered d ["Loop"] "Of[" ∧ ¬ Answered d [] "Of[") ∧
        Answered d [] "Both" ∧ ¬ Answered d ["Page["] "Both")) = .ok true := by
    decide +kernel
  cases hd : Document.ofJson unreadable with
  | error e => rw [hd] at hrun; cases hrun
  | ok d =>
    rw [hd] at hrun
    exact ⟨d, rfl, of_decide_eq_true (Except.ok.inj hrun)⟩

end Resolver

end TypedClient
