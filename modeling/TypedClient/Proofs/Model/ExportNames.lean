import TypedClient.Client.MediaTypeGrammar
import TypedClient.Proofs.Model.Declared
import TypedClient.Proofs.Naming.Identifiers
import TypedClient.Proofs.TypeName.Separators
import TypedClient.Text.AsciiTable

/-! The names that models export. The name of a component has no brackets, so what its model exports
is what follows its last dot, as it stands there: nothing is left out, put in or replaced. That it
is an identifier depends on the name alone. -/

namespace TypedClient

namespace TypeName

/-! ### What follows the last dot -/

def lastPart (cs : List Char) : List Char := (cs.reverse.takeWhile (· != '.')).reverse

theorem not_mem_lastPart (cs : List Char) : '.' ∉ lastPart cs := by
  intro hdot
  have hne := List.mem_takeWhile_imp (List.mem_reverse.1 hdot)
  simp at hne

/-- A text without dots, or what comes before its last dot and what follows it. -/
theorem eq_or_eq_lastPart (cs : List Char) :
    cs = lastPart cs ∨ ∃ before, cs = before ++ '.' :: lastPart cs := by
  have hcut : (cs.reverse.dropWhile (· != '.')).reverse ++ lastPart cs = cs := by
    rw [lastPart, ← List.reverse_append, List.takeWhile_append_dropWhile, List.reverse_reverse]
  cases hrest : cs.reverse.dropWhile (· != '.') with
  | nil =>
    rw [hrest] at hcut
    exact .inl hcut.symm
  | cons c rest =>
    have hdot : c = '.' := by
      have hhead := List.head?_dropWhile_not (· != '.') cs.reverse
      rw [hrest] at hhead
      simpa using hhead
    rw [hrest, hdot, List.reverse_cons, List.append_assoc] at hcut
    exact .inr ⟨rest.reverse, hcut.symm⟩

theorem lastPart_subset (cs : List Char) : lastPart cs ⊆ cs := fun _ hc =>
  List.mem_reverse.1 ((List.takeWhile_sublist _).subset (List.mem_reverse.1 hc))

/-- Where there are no brackets, the name within the scope is what follows the last dot. -/
theorem splitScope_of_plain {cs : List Char} (h : ∀ c ∈ cs, isBracket c = false) :
    (splitScope cs).2 = lastPart cs := by
  have huncut : Uncut '.' 0 (lastPart cs).reverse :=
    uncut_of_not_mem (mt List.mem_reverse.1 (not_mem_lastPart cs))
  rcases eq_or_eq_lastPart cs with hnone | ⟨before, hcs⟩
  · rw [← hnone] at huncut
    rw [splitScope_of_uncut huncut]
    exact hnone
  · have hplain : ∀ c ∈ lastPart cs, isBracket c = false := fun c hc => by
      apply h c
      rw [hcs]
      exact List.mem_append_right _ (List.mem_cons_of_mem _ hc)
    generalize lastPart cs = last at *
    rw [hcs, splitScope_append huncut (matched_of_plain hplain)]

theorem headOf_of_plain {cs : List Char} (h : ∀ c ∈ cs, isBracket c = false) :
    headOf cs = cs := by
  have hall : cs.takeWhile (· != '<') = cs := by
    rw [List.takeWhile_eq_self_iff]
    intro c hc
    have hc := h c hc
    rw [bne_iff_ne]
    rintro rfl
    cases hc
  unfold headOf
  rw [hall]
  split <;> simp_all

/-- A name without brackets is called by what follows its last dot. -/
theorem name_of_plain {name : String} {parsed : TypeName} (hparsed : parse name = .ok parsed)
    (h : ∀ c ∈ name.toList, isBracket c = false) :
    parsed.name = String.ofList (lastPart name.toList) := by
  have hlast := splitScope_of_plain h
  have hhead : headOf (lastPart name.toList) = lastPart name.toList :=
    headOf_of_plain fun c hc => h c ((subset_of_splitScope name.toList).2 (hlast ▸ hc))
  rw [(parts_of_parse hparsed).2.1, hlast, hhead]

end TypeName

namespace Naming

/-! ### Names of components -/

/-- What the names of components are made of: letters, digits, dots, dashes and underscores. -/
def isComponentPart (c : Char) : Bool := c.isAlphanum || c = '.' || c = '-' || c = '_'

/-- What follows the last dot of a name is not empty, begins with no digit and has no dash. -/
structure Exportable (name : String) : Prop where
  nonempty : TypeName.lastPart name.toList ≠ []
  letter : digitLed (String.ofList (TypeName.lastPart name.toList)) = false
  undashed : '-' ∉ TypeName.lastPart name.toList

instance (name : String) : Decidable (Exportable name) :=
  decidable_of_iff (TypeName.lastPart name.toList ≠ [] ∧
      digitLed (String.ofList (TypeName.lastPart name.toList)) = false ∧
      '-' ∉ TypeName.lastPart name.toList)
    ⟨fun ⟨hn, hl, hu⟩ => ⟨hn, hl, hu⟩, fun h => ⟨h.nonempty, h.letter, h.undashed⟩⟩

theorem not_isBracket_of_isComponentPart {c : Char} (h : isComponentPart c = true) :
    TypeName.isBracket c = false := by
  rw [Bool.eq_false_iff]
  intro hbracket
  simp only [TypeName.isBracket, TypeName.isOpener, TypeName.isCloser, Bool.or_eq_true,
    decide_eq_true_eq] at hbracket
  rcases hbracket with (rfl | rfl) | (rfl | rfl) <;> exact absurd h (by decide)

theorem isPart_iff_of_isComponentPart {c : Char} (h : isComponentPart c = true) (hdot : c ≠ '.') :
    isPart c ↔ c ≠ '-' := by
  simp only [isComponentPart, Bool.or_eq_true, decide_eq_true_eq] at h
  rcases h with ((h | rfl) | rfl) | rfl
  · refine iff_of_true (isPart_of_isAlphanum h) ?_
    rintro rfl
    cases h
  · exact absurd rfl hdot
  · decide
  · decide

/-- What follows the last dot of a component's name is an identifier exactly if the name is fit for
that. -/
theorem isIdentifier_lastPart {name : String} (h : ∀ c ∈ name.toList, isComponentPart c = true) :
    isIdentifier (String.ofList (TypeName.lastPart name.toList)) ↔ Exportable name := by
  have hparts : ∀ c ∈ TypeName.lastPart name.toList, isPart c ↔ c ≠ '-' := fun c hc =>
    isPart_iff_of_isComponentPart (h c (TypeName.lastPart_subset _ hc))
      fun hdot => TypeName.not_mem_lastPart name.toList (hdot ▸ hc)
  have hworded : Worded (String.ofList (TypeName.lastPart name.toList)) ↔
      TypeName.lastPart name.toList ≠ [] ∧ '-' ∉ TypeName.lastPart name.toList := by
    rw [worded_iff, String.toList_ofList, forall₂_congr hparts]
    refine and_congr Iff.rfl ⟨fun hall hdash => hall _ hdash rfl, ?_⟩
    rintro hdash _ hc rfl
    exact hdash hc
  rw [isIdentifier_iff, hworded]
  exact ⟨fun ⟨⟨hne, hdash⟩, hled⟩ => ⟨hne, hled, hdash⟩,
    fun ⟨hne, hled, hdash⟩ => ⟨⟨hne, hdash⟩, hled⟩⟩

example : Exportable "Shop.Pet" ∧
    ∀ name ∈ ["pet-tag", "2fa", "Shop.2fa", "Pet.", "."], ¬ Exportable name := by decide

end Naming

namespace Projection

open Model Resolver

variable {root : Json} {d : Document} {options : Client.Options} {p : Projection}

/-- The model is that of the type which is registered under the name and has it for its own. -/
structure Owns (p : Projection) (name : String) (t : TypeId) (m : ModelEntry) : Prop where
  registered : Assoc.get? p.types.registry name = some t
  named : (p.types.graph.get t).fullName = name
  isModel : (p.types.graph.get t).isModel = true
  entry : entry p.types.graph t = m

/-- **Every model belongs to a schema and is exported under what follows the last dot of the
schema's name. That is an identifier exactly if it is not empty, begins with no digit and has no
dash.** -/
theorem exportName_exact [MediaType.Reading] [Text.Transliteration]
    (h : Document.ofJson root = .ok d) (hp : build d options = .ok p)
    (hnames : ∀ name ∈ Assoc.keys d.schemas, ∀ c ∈ name.toList, Naming.isComponentPart c = true) :
    (∀ m, m ∈ p.models ↔ ∃ name ∈ Assoc.keys d.schemas, ∃ t, Owns p name t m) ∧
      ∀ name t m, Owns p name t m →
        m.exportName = String.ofList (TypeName.lastPart name.toList) ∧
          (Naming.isIdentifier m.exportName ↔ Naming.Exportable name) := by
  obtain ⟨r, hr, htypes, hmodels⟩ := finished_of_build h hp
  -- a model that is registered has the name of some schema for its own
  have hown : ∀ {name t}, Assoc.get? r.registry name = some t →
      (r.graph.get t).isModel = true → OwnName r t ∧ name ∈ Assoc.keys d.schemas := by
    intro name t hregistered hmodel
    obtain ⟨node, hdeclared, htyped⟩ := hr.faithful.declared hregistered
    exact ⟨ownName_of_isModel hr.faithful hr.types.graph (hr.faithful.rooted htyped) hmodel,
      List.mem_map.2 ⟨_, Assoc.mem_of_get? hdeclared, rfl⟩⟩
  refine ⟨fun m => ?_, fun name t m hm => ?_⟩
  · rw [hmodels, mem_project]
    constructor
    · rintro ⟨t, ht, rfl⟩
      obtain ⟨⟨name, hregistered⟩, hmodel⟩ := (mem_modelTypes hr.distinct).1 ht
      obtain ⟨⟨own, _, hregistered, -, -, -, hfull⟩, -⟩ := hown hregistered hmodel
      refine ⟨own, (hown hregistered hmodel).2, t, ?_, ?_, ?_, ?_⟩ <;> rw [htypes]
      · exact hregistered
      · exact hfull
      · exact hmodel
    · rintro ⟨name, -, t, hregistered, -, hmodel, rfl⟩
      rw [htypes] at *
      exact ⟨t, (mem_modelTypes hr.distinct).2 ⟨⟨name, hregistered⟩, hmodel⟩, rfl⟩
  · obtain ⟨hregistered, hfull, hmodel, rfl⟩ := hm
    rw [htypes] at hregistered hfull hmodel ⊢
    obtain ⟨⟨own, parsed, -, hparsed, hname, -, hfull'⟩, hmem⟩ := hown hregistered hmodel
    obtain rfl : own = name := hfull'.symm.trans hfull
    have hparts := hnames own hmem
    have hlast := TypeName.name_of_plain hparsed fun c hc =>
      Naming.not_isBracket_of_isComponentPart (hparts c hc)
    have hexport : (entry r.graph t).exportName =
        String.ofList (TypeName.lastPart own.toList) := by
      rw [entry_exportName, hname, hlast]
    refine ⟨hexport, ?_⟩
    show Naming.isIdentifier (entry r.graph t).exportName ↔ _
    rw [hexport]
    exact Naming.isIdentifier_lastPart hparts

/-! ### A name with a dash -/

/-- Pets, in a scope, and their tags under a name with a dash. -/
def petTags : Json := documentWith [("Shop.Pet", pet), ("pet-tag", pet)]

theorem run_petTags :
    ∃ d p, Document.ofJson petTags = .ok d ∧ build d {} = .ok p ∧
      (∀ name ∈ Assoc.keys d.schemas, name ≠ "" ∧
        ∀ c ∈ name.toList, Naming.isComponentPart c = true) ∧
      p.models.map ModelEntry.exportName = ["Pet", "pet-tag"] := by
  have hread : Assoc.keys <$> Document.schemas <$> Document.ofJson petTags =
      .ok ["Shop.Pet", "pet-tag"] := by decide +kernel
  have hrun : (Document.ofJson petTags >>= fun d =>
      (fun p => p.models.map ModelEntry.exportName) <$> build d {}) = .ok ["Pet", "pet-tag"] := by
    decide +kernel
  obtain ⟨d, p, hd, hp, hexports⟩ := exists_of_run hrun
  rw [hd] at hread
  refine ⟨d, p, hd, hp, ?_, hexports⟩
  rw [show Assoc.keys d.schemas = ["Shop.Pet", "pet-tag"] from Except.ok.inj hread]
  simp [Naming.isComponentPart]

theorem exportName_exact_petTags :
    ∃ d p, Document.ofJson petTags = .ok d ∧ build d {} = .ok p ∧
      (∀ name ∈ Assoc.keys d.schemas, ∀ c ∈ name.toList, Naming.isComponentPart c = true) ∧
      ∃ m ∈ p.models, m.exportName = "Pet" ∧ ∃ name t, Owns p name t m ∧ Naming.Exportable name ∧
        m.exportName = String.ofList (TypeName.lastPart name.toList) := by
  obtain ⟨d, p, hd, hp, hwords, hexports⟩ := run_petTags
  have hnames := fun name hname => (hwords name hname).2
  obtain ⟨howned, hexact⟩ := exportName_exact hd hp hnames
  have hpet : "Pet" ∈ p.models.map ModelEntry.exportName := by
    rw [hexports]
    decide
  obtain ⟨m, hm, hname⟩ := List.mem_map.1 hpet
  obtain ⟨name, -, t, howns⟩ := (howned m).1 hm
  obtain ⟨hexport, hidentifier⟩ := hexact name t m howns
  refine ⟨d, p, hd, hp, hnames, m, hm, hname, name, t, howns, hidentifier.1 ?_, hexport⟩
  rw [hname]
  decide

/-- The model of the pet tags is exported under a name with a dash. -/
theorem not_identifier_petTags :
    ¬ ∀ (root : Json) (d : Document) (options : Client.Options) (p : Projection),
      Document.ofJson root = .ok d → build d options = .ok p →
        (∀ name ∈ Assoc.keys d.schemas, name ≠ "" ∧
          ∀ c ∈ name.toList, Naming.isComponentPart c = true) →
        ∀ m ∈ p.models, Naming.isIdentifier m.exportName := by
  intro hclaim
  obtain ⟨d, p, hd, hp, hnames, hexports⟩ := run_petTags
  have htag : "pet-tag" ∈ p.models.map ModelEntry.exportName := by
    rw [hexports]
    decide
  obtain ⟨m, hm, hname⟩ := List.mem_map.1 htag
  have hidentifier := hclaim petTags d {} p hd hp hnames m hm
  rw [hname] at hidentifier
  exact absurd hidentifier (by decide)

end Projection

end TypedClient
