import TypedClient.Proofs.Alike
import TypedClient.Proofs.Outcome
import TypedClient.Proofs.TypeName.Brackets

/-! Which names can be read. Brackets have to match in the whole name, and again between the first
angle bracket and the last character of everything in it that ends in a list of arguments: where a
list begins is not looked for from its end. -/

namespace TypedClient

namespace TypeName

/-! ### Texts in a name -/

/-- The texts that reading a name comes upon: the name, its arguments, theirs, and so on. -/
inductive Within (name : List Char) : List Char → Prop
  | whole : Within name name
  | argument {cs argument : List Char} (h : Within name cs) (ha : argument ∈ argumentTexts cs) :
      Within name argument

/-- The text ends in a list of arguments. -/
def HasArguments (cs : List Char) : Prop := cs.getLast? = some '>' ∧ '<' ∈ cs

instance (cs : List Char) : Decidable (HasArguments cs) :=
  inferInstanceAs (Decidable (_ ∧ _))

theorem Within.trans {name argument cs : List Char} (ha : argument ∈ argumentTexts name)
    (h : Within argument cs) : Within name cs := by
  induction h with
  | whole => exact .argument .whole ha
  | argument _ hcs ih => exact .argument ih hcs

theorem mem_argumentTexts {cs argument : List Char} :
    argument ∈ argumentTexts cs ↔ HasArguments cs ∧ argument ≠ [] ∧
      ∃ p ∈ splitCommas 0 (inner cs), Text.trimChars p = argument := by
  unfold argumentTexts HasArguments
  split
  · next h =>
    have hhas : cs.getLast? = some '>' ∧ '<' ∈ cs := by simpa using h
    simp [hhas, and_comm]
  · next h =>
    have hhas : ¬ (cs.getLast? = some '>' ∧ '<' ∈ cs) := by simpa using h
    simp [hhas]

/-- The arguments of a name match when all that stands between its brackets does. -/
theorem balanced_inner_iff {cs : List Char} (h : HasArguments cs) :
    balanced (inner cs) = true ↔ ∀ a ∈ argumentTexts cs, balanced a = true := by
  rw [balanced_iff_pieces]
  constructor
  · intro hpieces a ha
    obtain ⟨-, -, p, hp, rfl⟩ := mem_argumentTexts.1 ha
    rw [balanced_trimChars]
    exact hpieces p hp
  · intro hall p hp
    rw [← balanced_trimChars]
    by_cases hempty : Text.trimChars p = []
    · rw [hempty]
      rfl
    · exact hall _ (mem_argumentTexts.2 ⟨h, hempty, p, hp, rfl⟩)

/-! ### Reading -/

/-- A name that is read is taken apart at the last dot outside of its brackets. -/
theorem parts_of_parse {name : String} {parsed : TypeName} (h : parse name = .ok parsed) :
    parsed.scope = String.ofList (splitScope name.toList).1 ∧
      parsed.name = String.ofList (headOf (splitScope name.toList).2) ∧ parsed.fullName = name := by
  rw [parse, parseChars_eq] at h
  split at h
  · obtain ⟨arguments, -, h⟩ := except_bind_eq_ok.1 h
    cases h
    exact ⟨rfl, rfl, String.ofList_toList⟩
  · cases h

/-- The name is read. -/
def Reads (cs : List Char) : Prop := ∃ t, parseChars cs = .ok t

theorem reads_iff (cs : List Char) :
    Reads cs ↔ balanced cs = true ∧ ∀ a ∈ argumentTexts cs, Reads a := by
  unfold Reads
  rw [parseChars_eq]
  split
  · next hbalanced =>
    constructor
    · rintro ⟨t, h⟩
      obtain ⟨arguments, hmap, -⟩ := except_bind_eq_ok.1 h
      refine ⟨hbalanced, fun a ha => ?_⟩
      obtain ⟨u, -, hu⟩ := exists_of_mem_left (mapM_eq_ok.1 hmap) ha
      exact ⟨u, hu⟩
    · rintro ⟨-, hall⟩
      obtain ⟨arguments, hmap⟩ := exists_of_mapM hall
      rw [hmap]
      exact ⟨_, rfl⟩
  · next hbalanced => exact ⟨nofun, fun h => absurd h.1 hbalanced⟩

/-- Every text in a name that is read is read. -/
theorem Within.reads {name cs : List Char} (h : Within name cs) (hname : Reads name) :
    Reads cs := by
  induction h with
  | whole => exact hname
  | argument _ ha ih => exact ((reads_iff _).1 ih).2 _ ha

/-- The lists of arguments in a name match. -/
def ListsMatch (name : List Char) : Prop :=
  ∀ cs, Within name cs → HasArguments cs → Matched (inner cs)

theorem reads_of_listsMatch {name : List Char} (h : Matched name) (hlists : ListsMatch name) :
    Reads name := by
  refine (reads_iff name).2 ⟨balanced_iff.2 h, fun a ha => ?_⟩
  have hhas := (mem_argumentTexts.1 ha).1
  have hinner := balanced_iff.2 (hlists name .whole hhas)
  have hlt := length_lt_of_mem_argumentTexts ha
  exact reads_of_listsMatch (balanced_iff.1 ((balanced_inner_iff hhas).1 hinner a ha))
    fun cs hcs => hlists cs (.trans ha hcs)
termination_by name.length

theorem listsMatch_of_reads {name : List Char} (h : Reads name) : ListsMatch name := by
  intro cs hcs hhas
  have hall := ((reads_iff cs).1 (hcs.reads h)).2
  exact balanced_iff.1 ((balanced_inner_iff hhas).2 fun a ha => ((reads_iff a).1 (hall a ha)).1)

/-- A name that is not read is refused for a text in it whose brackets do not match. -/
theorem unmatched_of_error {name : List Char} {e : Failure} (h : parseChars name = .error e) :
    ∃ cs, Within name cs ∧ ¬ Matched cs ∧ e = .unbalancedName (String.ofList cs) := by
  rw [parseChars_eq] at h
  split at h
  · cases hmap : (argumentTexts name).mapM parseChars with
    | error e' =>
      rw [hmap] at h
      cases h
      obtain ⟨a, ha, hfails⟩ := exists_of_mapM_error hmap
      have hlt := length_lt_of_mem_argumentTexts ha
      obtain ⟨cs, hcs, hunmatched, he⟩ := unmatched_of_error hfails
      exact ⟨cs, .trans ha hcs, hunmatched, he⟩
    | ok arguments =>
      rw [hmap] at h
      cases h
  · next hbalanced =>
    cases h
    exact ⟨name, .whole, fun hm => hbalanced (balanced_iff.2 hm), rfl⟩
termination_by name.length

/-- A name is read exactly if its brackets match and so do those of every list of arguments in it;
else a text in it is refused, one whose brackets do not match. -/
theorem parse_ok_iff (name : String) :
    ((∃ t, parse name = .ok t) ↔ Matched name.toList ∧ ListsMatch name.toList) ∧
      ∀ e, parse name = .error e → ∃ cs, Within name.toList cs ∧ ¬ Matched cs ∧
        e = .unbalancedName (String.ofList cs) := by
  refine ⟨⟨fun h => ?_, fun h => reads_of_listsMatch h.1 h.2⟩, fun e => unmatched_of_error⟩
  have hreads : Reads name.toList := h
  exact ⟨balanced_iff.1 ((reads_iff _).1 hreads).1, listsMatch_of_reads hreads⟩

/-- All brackets match in a page in a scope that has arguments of its own. It is not read: what
stands between the first angle bracket and the last one closes a bracket too many. -/
theorem not_read_of_genericScope :
    ¬ ∀ name : String, (∃ t, parse name = .ok t) ↔ Matched name.toList := by
  intro hclaim
  have hreads : Reads "Shop<Pet>.Page<Item>".toList := (hclaim _).2 (by decide)
  exact absurd (listsMatch_of_reads hreads _ .whole (by decide)) (by decide)

end TypeName

end TypedClient
