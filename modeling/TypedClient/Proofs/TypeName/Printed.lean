import TypedClient.Proofs.Alike
import TypedClient.Proofs.Outcome
import TypedClient.Proofs.Path.Place
import TypedClient.Proofs.TypeName.Readable
import TypedClient.Proofs.TypeName.Separators
import TypedClient.TypeName

/-! What is written of a reference to a type is read as that reference: its name, its scope and its
arguments, each of them read in the same way. -/

namespace TypedClient

/-! ### Blanks -/

namespace Text

/-- A text with no blank at either end. -/
structure Tight (cs : List Char) : Prop where
  first : ∃ c, cs.head? = some c ∧ isBlank c = false
  last : ∃ c, cs.getLast? = some c ∧ isBlank c = false

theorem dropWhile_of_head? {cs : List Char} {c : Char} (h : cs.head? = some c)
    (hc : isBlank c = false) : cs.dropWhile isBlank = cs := by
  obtain ⟨rest, rfl⟩ := List.head?_eq_some_iff.1 h
  rw [List.dropWhile_cons, if_neg (Bool.eq_false_iff.1 hc)]

/-- Blanks around a text without blanks at its ends are trimmed. -/
theorem Tight.trimChars {cs before after : List Char} (h : Tight cs)
    (hbefore : ∀ c ∈ before, isBlank c = true) (hafter : ∀ c ∈ after, isBlank c = true) :
    Text.trimChars (before ++ cs ++ after) = cs := by
  obtain ⟨c, hfirst, hc⟩ := h.first
  obtain ⟨d, hlast, hd⟩ := h.last
  have hhead : (cs ++ after).head? = some c := by rw [List.head?_append, hfirst, Option.some_or]
  have hreversed : cs.reverse.head? = some d := by rw [List.head?_reverse, hlast]
  rw [Text.trimChars, List.append_assoc, List.dropWhile_append_of_pos hbefore,
    dropWhile_of_head? hhead hc, List.reverse_append,
    List.dropWhile_append_of_pos fun c hc => hafter c (List.mem_reverse.1 hc),
    dropWhile_of_head? hreversed hd, List.reverse_reverse]

theorem exists_head?_of_dropWhile {cs : List Char} (hne : cs ≠ [])
    (h : cs.dropWhile isBlank = cs) : ∃ c, cs.head? = some c ∧ isBlank c = false := by
  obtain ⟨c, rest, rfl⟩ := List.exists_cons_of_ne_nil hne
  have hhead := List.head?_dropWhile_not isBlank (c :: rest)
  rw [h] at hhead
  exact ⟨c, rfl, by simpa using hhead⟩

/-- A text that is not empty and stays as it is when it is trimmed. -/
theorem tight_of_trimChars {cs : List Char} (hne : cs ≠ []) (h : Text.trimChars cs = cs) :
    Tight cs := by
  have hfirst : cs.dropWhile isBlank = cs := by
    refine (List.dropWhile_suffix isBlank).eq_of_length (Nat.le_antisymm ?_ ?_)
    · exact (List.dropWhile_suffix isBlank).length_le
    · have hlength := (List.dropWhile_suffix isBlank (l := (cs.dropWhile isBlank).reverse)).length_le
      rw [List.length_reverse] at hlength
      rw [Text.trimChars] at h
      rw [← List.length_reverse, h] at hlength
      exact hlength
  have hlast : cs.reverse.dropWhile isBlank = cs.reverse := by
    rw [Text.trimChars, hfirst] at h
    exact List.reverse_eq_iff.1 h
  obtain ⟨d, hd, hblank⟩ := exists_head?_of_dropWhile (by simpa using hne) hlast
  exact ⟨exists_head?_of_dropWhile hne hfirst, d, by rwa [List.head?_reverse] at hd, hblank⟩

end Text

namespace TypeReference

open TypedClient.TypeName

/-! ### Parts -/

/-- What can be a part of a reference. -/
structure Part (cs : List Char) : Prop where
  tight : Text.Tight cs
  plain : ∀ c ∈ cs, isBracket c = false
  dotless : '.' ∉ cs
  commaless : ',' ∉ cs

theorem part_of_isPart {cs : List Char} (h : isPart cs = true) : Part cs := by
  simp only [isPart, Bool.and_eq_true, Bool.not_eq_true', List.isEmpty_eq_false_iff, beq_iff_eq,
    List.all_eq_true, bne_iff_ne] at h
  obtain ⟨⟨hne, htrim⟩, hall⟩ := h
  refine ⟨Text.tight_of_trimChars hne htrim, fun c hc => ?_, fun hdot => (hall _ hdot).1.2 rfl,
    fun hcomma => (hall _ hcomma).2 rfl⟩
  obtain ⟨⟨⟨hopener, hcloser⟩, -⟩, -⟩ := hall c hc
  rw [isBracket, hopener, hcloser]
  rfl

/-- The parts of a reference and their dots: no bracket and no comma is among them. -/
theorem of_mem_qualified {scope : List (List Char)} {name : List Char}
    (hscope : ∀ part ∈ scope, Part part) (hname : Part name) {c : Char}
    (hc : c ∈ qualified scope name) : isBracket c = false ∧ c ≠ ',' := by
  rcases List.mem_append.1 hc with hc | hc
  · obtain ⟨part, hpart, hc⟩ := List.mem_flatMap.1 hc
    rcases List.mem_append.1 hc with hc | hc
    · exact ⟨(hscope part hpart).plain c hc, fun h => (hscope part hpart).commaless (h ▸ hc)⟩
    · rw [List.mem_singleton.1 hc]
      exact ⟨by decide, by decide⟩
  · exact ⟨hname.plain c hc, fun h => hname.commaless (h ▸ hc)⟩

/-- A scope as it is read: its parts with dots between them. -/
def scopeText (scope : List (List Char)) : List Char := ['.'].intercalate scope

theorem qualified_eq {scope : List (List Char)} (hne : scope ≠ []) (name : List Char) :
    qualified scope name = scopeText scope ++ '.' :: name := by
  induction scope with
  | nil => exact absurd rfl hne
  | cons part rest ih =>
    cases rest with
    | nil => simp [qualified, scopeText]
    | cons next rest =>
      have hrest := ih (List.cons_ne_nil _ _)
      unfold qualified scopeText at hrest ⊢
      rw [List.flatMap_cons, List.append_assoc, hrest, List.intercalate_cons_cons]
      simp only [List.append_assoc, List.cons_append, List.nil_append]

/-! ### Arguments -/

abbrev Argument := List Char × TypeReference × List Char

/-- An argument with the blanks around it. -/
def printArgument (a : Argument) : List Char := a.1 ++ a.2.1.print ++ a.2.2

theorem printArguments_eq (arguments : List Argument) :
    printArguments arguments = [','].intercalate (arguments.map printArgument) := by
  induction arguments with
  | nil => rfl
  | cons a rest ih =>
    obtain ⟨before, t, after⟩ := a
    cases rest with
    | nil => simp [printArguments, printArgument]
    | cons next rest =>
      rw [printArguments, ih]
      · simp [printArgument, List.intercalate_cons_cons]
      · exact List.cons_ne_nil _ _

theorem wellFormedAll_iff (arguments : List Argument) : wellFormedAll arguments = true ↔
    ∀ a ∈ arguments, (∀ c ∈ a.1, Text.isBlank c = true) ∧ (∀ c ∈ a.2.2, Text.isBlank c = true) ∧
      a.2.1.wellFormed = true := by
  induction arguments with
  | nil => simp [wellFormedAll]
  | cons a rest ih =>
    obtain ⟨before, t, after⟩ := a
    simp [wellFormedAll, ih, and_assoc]

/-- The arguments of a reference in their brackets. -/
def argumentList (arguments : List Argument) : List Char :=
  if arguments.isEmpty then [] else '<' :: (printArguments arguments ++ ['>'])

theorem print_node (scope : List (List Char)) (name : List Char) (arguments : List Argument) :
    print (.node scope name arguments) = qualified scope name ++ argumentList arguments := by
  rw [print, argumentList]

/-- The parts of a reference can be parts, and blanks alone stand around its arguments. -/
theorem wellFormed_node {scope : List (List Char)} {name : List Char} {arguments : List Argument}
    (h : (node scope name arguments).wellFormed = true) :
    (∀ part ∈ scope, Part part) ∧ Part name ∧ wellFormedAll arguments = true := by
  simp only [wellFormed, Bool.and_eq_true, List.all_eq_true] at h
  exact ⟨fun part hpart => part_of_isPart (h.1.1 part hpart), part_of_isPart h.1.2, h.2⟩

theorem matched_of_blank {cs : List Char} (h : ∀ c ∈ cs, Text.isBlank c = true) : Matched cs :=
  matched_of_plain fun c hc => isBracket_of_isBlank (h c hc)

theorem matched_intercalate {texts : List (List Char)} (h : ∀ t ∈ texts, Matched t) :
    Matched ([','].intercalate texts) := by
  induction texts with
  | nil => exact matched_of_plain fun c hc => absurd hc List.not_mem_nil
  | cons t rest ih =>
    rw [List.forall_mem_cons] at h
    cases rest with
    | nil => simpa using h.1
    | cons next rest =>
      rw [List.intercalate_cons_cons]
      have hcomma : Matched [','] := matched_of_plain fun c hc => List.mem_singleton.1 hc ▸ rfl
      exact (h.1.append hcomma).append (ih h.2)

theorem matched_argumentList {arguments : List Argument}
    (h : ∀ a ∈ arguments, Matched (printArgument a)) : Matched (argumentList arguments) := by
  rw [argumentList]
  split
  · exact matched_of_plain fun c hc => absurd hc List.not_mem_nil
  · rw [printArguments_eq]
    exact (matched_intercalate (List.forall_mem_map.2 h)).enclosed

mutual

/-- What is written of a reference has matching brackets. -/
theorem matched_print (t : TypeReference) (h : t.wellFormed = true) : Matched t.print := by
  match t, h with
  | .node scope name arguments, h =>
    obtain ⟨hscope, hname, harguments⟩ := wellFormed_node h
    rw [print_node]
    exact (matched_of_plain fun c hc => (of_mem_qualified hscope hname hc).1).append
      (matched_argumentList (matched_printArgument arguments harguments))

theorem matched_printArgument (arguments : List Argument) (h : wellFormedAll arguments = true) :
    ∀ a ∈ arguments, Matched (printArgument a) := by
  match arguments, h with
  | [], _ => exact fun a ha => absurd ha List.not_mem_nil
  | (before, t, after) :: rest, h =>
    simp only [wellFormedAll, Bool.and_eq_true, List.all_eq_true] at h
    obtain ⟨⟨⟨hbefore, hafter⟩, ht⟩, hrest⟩ := h
    rw [List.forall_mem_cons]
    exact ⟨((matched_of_blank hbefore).append (matched_print t ht)).append
      (matched_of_blank hafter), matched_printArgument rest hrest⟩

end

/-! ### What is written, taken apart -/

section Node

variable {scope : List (List Char)} {name : List Char} {arguments : List Argument}

theorem inner_print (hscope : ∀ part ∈ scope, Part part) (hname : Part name)
    (hne : arguments ≠ []) :
    TypeName.inner (print (.node scope name arguments)) = printArguments arguments := by
  have hplain : ∀ c ∈ qualified scope name, (c != '<') = true := by
    intro c hc
    rw [bne_iff_ne]
    rintro rfl
    exact absurd (of_mem_qualified hscope hname hc).1 (by decide)
  have hlist : argumentList arguments = '<' :: (printArguments arguments ++ ['>']) := by
    rw [argumentList, if_neg (by simpa using hne)]
  rw [print_node, TypeName.inner, List.dropWhile_append_of_pos hplain, hlist]
  simp

/-- A reference ends in a list of arguments if it has some. -/
theorem getLast?_print (hname : Part name) :
    (print (.node scope name arguments)).getLast? = some '>' ↔ arguments ≠ [] := by
  rw [print_node, argumentList]
  cases arguments with
  | nil =>
    obtain ⟨c, hlast, -⟩ := hname.tight.last
    have hmem := List.mem_of_getLast? hlast
    simp only [List.isEmpty_nil, if_true, List.append_nil, ne_eq, not_true_eq_false, iff_false]
    rw [qualified, List.getLast?_append, hlast, Option.some_or]
    intro h
    cases h
    exact absurd (hname.plain _ hmem) (by decide)
  | cons a rest => simp [List.getLast?_append, List.getLast?_cons]

theorem uncut_argumentList {separator : Char} (h : ∀ a ∈ arguments, Matched (printArgument a))
    (hopener : '<' ≠ separator) (hcloser : '>' ≠ separator) :
    Uncut separator 0 (argumentList arguments) ∧
      Uncut separator 0 (argumentList arguments).reverse := by
  rw [argumentList]
  split
  · exact ⟨trivial, trivial⟩
  · rw [printArguments_eq]
    exact (matched_intercalate (List.forall_mem_map.2 h)).uncut_enclosed hopener hcloser

/-- No comma of a reference stands outside its brackets. -/
theorem uncut_print (hscope : ∀ part ∈ scope, Part part) (hname : Part name)
    (h : ∀ a ∈ arguments, Matched (printArgument a)) :
    Uncut ',' 0 (print (.node scope name arguments)) := by
  have hplain := fun c hc => of_mem_qualified hscope hname (c := c) hc
  rw [print_node, uncut_append,
    (matched_of_plain fun c hc => (hplain c hc).1).depthAfterAll]
  exact ⟨uncut_of_not_mem fun hcomma => (hplain _ hcomma).2 rfl,
    (uncut_argumentList h (by decide) (by decide)).1⟩

/-- A reference begins and ends with a part or a bracket. -/
theorem tight_print (hscope : ∀ part ∈ scope, Part part) (hname : Part name) :
    Text.Tight (print (.node scope name arguments)) := by
  constructor
  · have hfirst : ∃ part rest, Part part ∧ qualified scope name = part ++ rest := by
      cases scope with
      | nil => exact ⟨name, [], hname, by simp [qualified]⟩
      | cons part rest =>
        exact ⟨part, '.' :: qualified rest name, hscope part List.mem_cons_self,
          by simp [qualified]⟩
    obtain ⟨part, rest, hpart, heq⟩ := hfirst
    obtain ⟨c, hhead, hc⟩ := hpart.tight.first
    refine ⟨c, ?_, hc⟩
    rw [print_node, heq, List.append_assoc, List.head?_append, hhead, Option.some_or]
  · by_cases hne : arguments = []
    · obtain ⟨c, hlast, hc⟩ := hname.tight.last
      refine ⟨c, ?_, hc⟩
      rw [print_node, hne, argumentList, List.isEmpty_nil, if_pos rfl, List.append_nil, qualified,
        List.getLast?_append, hlast, Option.some_or]
    · exact ⟨'>', (getLast?_print hname).2 hne, by decide⟩

end Node

/-- An argument is told apart from its blanks and its neighbours. -/
theorem argument_print {t : TypeReference} (h : t.wellFormed = true) {before after : List Char}
    (hbefore : ∀ c ∈ before, Text.isBlank c = true) (hafter : ∀ c ∈ after, Text.isBlank c = true) :
    Uncut ',' 0 (printArgument (before, t, after)) ∧
      Text.trimChars (printArgument (before, t, after)) = t.print ∧ t.print ≠ [] := by
  have hcomma : ∀ {cs : List Char}, (∀ c ∈ cs, Text.isBlank c = true) → ',' ∉ cs :=
    fun hcs hc => absurd (hcs _ hc) (by decide)
  obtain ⟨scope, name, arguments⟩ := t
  obtain ⟨hscope, hname, harguments⟩ := wellFormed_node h
  have hprinted := uncut_print hscope hname (matched_printArgument arguments harguments)
  have htight : Text.Tight (print (.node scope name arguments)) := tight_print hscope hname
  refine ⟨?_, htight.trimChars hbefore hafter, ?_⟩
  · rw [printArgument, uncut_append, uncut_append, (matched_of_blank hbefore).depthAfterAll]
    exact ⟨⟨uncut_of_not_mem (hcomma hbefore), hprinted⟩, uncut_of_not_mem (hcomma hafter)⟩
  · obtain ⟨c, hhead, -⟩ := htight.first
    rintro hnil
    rw [hnil] at hhead
    cases hhead

/-- The arguments that are found in a reference are those that were written. -/
theorem argumentTexts_print {scope : List (List Char)} {name : List Char}
    {arguments : List Argument} (h : (node scope name arguments).wellFormed = true) :
    argumentTexts (print (.node scope name arguments)) = arguments.map fun a => a.2.1.print := by
  obtain ⟨hscope, hname, harguments⟩ := wellFormed_node h
  have hall := (wellFormedAll_iff arguments).1 harguments
  have hlast : (print (.node scope name arguments)).getLast? = some '>' ↔ arguments ≠ [] :=
    getLast?_print hname
  by_cases hne : arguments = []
  · have hplain : ¬ (node scope name arguments).print.getLast? = some '>' :=
      fun hends => hlast.1 hends hne
    rw [argumentTexts, if_neg (by simp [hplain]), hne, List.map_nil]
  · have hopener : '<' ∈ print (.node scope name arguments) := by
      rw [print_node, argumentList, if_neg (by simpa using hne)]
      exact List.mem_append_right _ List.mem_cons_self
    have hsplit : splitCommas 0 (TypeName.inner (print (.node scope name arguments))) =
        arguments.map printArgument := by
      rw [inner_print hscope hname hne, printArguments_eq]
      refine splitCommas_intercalate (by simpa using hne) (List.forall_mem_map.2 fun a ha => ?_)
      obtain ⟨hbefore, hafter, ht⟩ := hall a ha
      exact ⟨matched_printArgument arguments harguments a ha,
        (argument_print ht hbefore hafter).1⟩
    have htrimmed : (arguments.map printArgument).map Text.trimChars =
        arguments.map fun a => a.2.1.print := by
      rw [List.map_map]
      refine List.map_congr_left fun a ha => ?_
      obtain ⟨hbefore, hafter, ht⟩ := hall a ha
      exact (argument_print ht hbefore hafter).2.1
    rw [argumentTexts, if_pos (by simp [hlast, hne, hopener]), hsplit, htrimmed,
      List.filter_eq_self]
    refine List.forall_mem_map.2 fun a ha => ?_
    obtain ⟨hbefore, hafter, ht⟩ := hall a ha
    simpa using (argument_print ht hbefore hafter).2.2

/-- The name and the scope that are found in a reference. -/
theorem splitScope_print {scope : List (List Char)} {name : List Char}
    {arguments : List Argument} (h : (node scope name arguments).wellFormed = true) :
    splitScope (print (.node scope name arguments)) =
      (scopeText scope, name ++ argumentList arguments) := by
  obtain ⟨hscope, hname, harguments⟩ := wellFormed_node h
  have hmatched := matched_printArgument arguments harguments
  have huncut : Uncut '.' 0 (name ++ argumentList arguments).reverse := by
    rw [List.reverse_append, uncut_append, (matched_argumentList hmatched).depthAfterAll_reverse]
    exact ⟨(uncut_argumentList hmatched (by decide) (by decide)).2,
      uncut_of_not_mem (by simpa using hname.dotless)⟩
  rw [print_node]
  by_cases hne : scope = []
  · rw [hne]
    exact splitScope_of_uncut huncut
  · rw [qualified_eq hne, List.append_assoc, List.cons_append]
    exact splitScope_append huncut
      ((matched_of_plain hname.plain).append (matched_argumentList hmatched)) _

theorem headOf_print {name : List Char} (hname : Part name) (arguments : List Argument) :
    headOf (name ++ argumentList arguments) = name := by
  have hplain : ∀ c ∈ name, (c != '<') = true := by
    intro c hc
    rw [bne_iff_ne]
    rintro rfl
    exact absurd (hname.plain _ hc) (by decide)
  have hstop : (argumentList arguments).takeWhile (· != '<') = [] := by
    rw [argumentList]
    split <;> rfl
  rw [headOf, List.takeWhile_append_of_pos hplain, hstop, List.append_nil]
  obtain ⟨c, hhead, -⟩ := hname.tight.first
  cases name with
  | nil => cases hhead
  | cons c rest => rfl

/-! ### Reading what is written -/

mutual

/-- What a reference says of itself: the name that is read when it is written. -/
def typeName : TypeReference → TypeName
  | .node scope name arguments => {
      name := String.ofList name
      scope := String.ofList (scopeText scope)
      fullName := String.ofList (print (.node scope name arguments))
      isGeneric := !arguments.isEmpty
      arguments := typeNames arguments }

def typeNames : List Argument → List TypeName
  | [] => []
  | (_, t, _) :: rest => typeName t :: typeNames rest

end

/-- The first part of the scope of a reference. -/
def rootPart : TypeReference → List Char
  | .node scope _ _ => scope.head?.getD []

mutual

theorem parseChars_print (t : TypeReference) (h : t.wellFormed = true) :
    parseChars t.print = .ok t.typeName := by
  match t, h with
  | .node scope name arguments, h =>
    obtain ⟨hscope, hname, harguments⟩ := wellFormed_node h
    have hread := mapM_eq_ok.2 (forall₂_parseChars_print arguments harguments)
    have hgeneric : decide ((print (.node scope name arguments)).getLast? = some '>') =
        !arguments.isEmpty := by
      rw [Bool.eq_iff_iff, decide_eq_true_eq, getLast?_print hname]
      simp
    rw [parseChars_eq, if_pos (balanced_iff.2 (matched_print _ h)), argumentTexts_print h, hread,
      splitScope_print h, headOf_print hname, hgeneric]
    rfl

theorem forall₂_parseChars_print (arguments : List Argument) (h : wellFormedAll arguments = true) :
    List.Forall₂ (fun cs u => parseChars cs = .ok u) (arguments.map fun a => a.2.1.print)
      (typeNames arguments) := by
  match arguments, h with
  | [], _ => exact .nil
  | (before, t, after) :: rest, h =>
    simp only [wellFormedAll, Bool.and_eq_true] at h
    exact .cons (parseChars_print t h.1.2) (forall₂_parseChars_print rest h.2)

end

/-- The parts of a scope are found again between its dots. -/
theorem pieces_scopeText {scope : List (List Char)} (hne : scope ≠ [])
    (h : ∀ part ∈ scope, Part part) : Text.pieces (· == '.') (scopeText scope) = scope := by
  have hpiece : ∀ part, Part part → Text.pieces (· == '.') part = [part] := by
    intro part hpart
    refine Text.pieces_of_forall_not_cut fun c hc => ?_
    rw [beq_eq_false_iff_ne]
    rintro rfl
    exact hpart.dotless hc
  induction scope with
  | nil => exact absurd rfl hne
  | cons part rest ih =>
    rw [List.forall_mem_cons] at h
    cases rest with
    | nil => simpa [scopeText] using hpiece part h.1
    | cons next rest =>
      have hrest := ih (List.cons_ne_nil _ _) h.2
      unfold scopeText at hrest ⊢
      rw [List.intercalate_cons_cons, List.append_assoc, List.singleton_append,
        Text.pieces_append_cut (by decide), hpiece part h.1, hrest]
      rfl

theorem rootScope_typeName (t : TypeReference) (h : t.wellFormed = true) :
    t.typeName.rootScope = String.ofList t.rootPart := by
  obtain ⟨scope, name, arguments⟩ := t
  obtain ⟨hscope, -, -⟩ := wellFormed_node h
  rw [rootScope, typeName, String.toList_ofList, rootPart]
  by_cases hne : scope = []
  · rw [hne]
    rfl
  · rw [pieces_scopeText hne hscope]

/-- A reference is read as it was written: name, scope and arguments are its own, whatever its depth
and its blanks. -/
theorem parse_print (t : TypeReference) (h : t.wellFormed = true) :
    TypeName.parse (String.ofList t.print) = .ok t.typeName ∧
      t.typeName.rootScope = String.ofList t.rootPart := by
  refine ⟨?_, rootScope_typeName t h⟩
  rw [parse, String.toList_ofList]
  exact parseChars_print t h

/-- A page of pets by texts, in a scope of two parts, with arguments that have arguments. -/
def pageOfPets : TypeReference :=
  .node ["Shop".toList, "Models".toList] "Page".toList [
    ([], .node ["Shop".toList] "Pet".toList [], []),
    ([' '], .node [] "Map".toList [
      ([], .node [] "String".toList [], []),
      ([' '], .node ["System".toList] "List".toList [([], .node [] "T".toList [], [' '])], [])],
      ['\t'])]

theorem parse_print_pageOfPets :
    pageOfPets.wellFormed = true ∧
      TypeName.parse "Shop.Models.Page<Shop.Pet, Map<String, System.List<T >>\t>" =
        .ok pageOfPets.typeName ∧
      pageOfPets.typeName.name = "Page" ∧ pageOfPets.typeName.scope = "Shop.Models" ∧
      pageOfPets.typeName.rootScope = "Shop" := by
  have hformed : pageOfPets.wellFormed = true := by decide +kernel
  have hprinted : String.ofList pageOfPets.print =
      "Shop.Models.Page<Shop.Pet, Map<String, System.List<T >>\t>" := by decide +kernel
  obtain ⟨hparse, hroot⟩ := parse_print pageOfPets hformed
  rw [hprinted] at hparse
  exact ⟨hformed, hparse, rfl, rfl, hroot⟩

end TypeReference

end TypedClient
