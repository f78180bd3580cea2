import TypedClient.Json.Reader
import TypedClient.Proofs.Code.UrlLiteral
import TypedClient.Proofs.Naming.Identifiers

/-! Keys of members against the language they are written in. A key is a name, or a string in single
quotes that the language reads back; what a string means is told by the language's own grammar, with
all of its escapes, as a sequence of UTF-16 code units. Main statement: a key is read back as the
name that it was written for, and as nothing else, exactly if that name has no line break that may
not stand in a string as it is. The two replacements take care of quotes and backslashes; line
breaks are left as they are. -/

namespace TypedClient.Code

/-! ### Strings of the language -/

/-- A line feed, a carriage return, or one of the separators of lines and of paragraphs. -/
def isLineBreak (c : Char) : Bool := c = '\n' || c = '\r' || c = '\u2028' || c = '\u2029'

/-- What editions of the language differ in: the letters of names, and whether the two separators
may stand in a string as they are. -/
structure Edition extends Lexicon where
  rawSeparators : Bool

/-- A number beyond 16 bits is two code units. -/
def unitsOf (n : Nat) : List Nat :=
  if n < 0x10000 then [n] else [0xD800 + (n - 0x10000) / 0x400, 0xDC00 + (n - 0x10000) % 0x400]

/-- A text as it is held at run time. -/
def units (cs : List Char) : List Nat := cs.flatMap fun c => unitsOf c.toNat

/-- The characters that stand for one code unit after a backslash. -/
def shortEscapes : List (Char × Nat) :=
  [('\x27', 0x27), ('"', 0x22), ('\\', 0x5C), ('b', 0x08), ('t', 0x09), ('n', 0x0A), ('v', 0x0B),
    ('f', 0x0C), ('r', 0x0D)]

def hexNumber? (digits : List Char) : Option Nat :=
  (digits.mapM Json.hexValue?).map fun ds => ds.foldl (fun n d => 16 * n + d) 0

namespace Edition

variable (E : Edition)

/-- Whether a character may stand in a string as it is, if it is no quote and no backslash. -/
def standsRaw (c : Char) : Bool :=
  !isLineBreak c || E.rawSeparators && (c = '\u2028' || c = '\u2029')

/-- What may be written after a backslash, and the code units that it stands for. -/
inductive Escape : List Char → List Nat → Prop
  | short {c : Char} {unit : Nat} (h : shortEscapes.lookup c = some unit) : Escape [c] [unit]
  /-- A character without a meaning of its own. -/
  | plain {c : Char} (h : shortEscapes.lookup c = none) (hletter : c ≠ 'x' ∧ c ≠ 'u')
      (hdigit : c.isDigit = false) (hbreak : isLineBreak c = false) : Escape [c] (unitsOf c.toNat)
  | zero : Escape ['0'] [0]
  | byte {digits : List Char} {n : Nat} (hlength : digits.length = 2)
      (h : hexNumber? digits = some n) : Escape ('x' :: digits) [n]
  | unit {digits : List Char} {n : Nat} (hlength : digits.length = 4)
      (h : hexNumber? digits = some n) : Escape ('u' :: digits) [n]
  | point {digits : List Char} {n : Nat} (hne : digits ≠ []) (h : hexNumber? digits = some n)
      (hmax : n ≤ 0x10FFFF) : Escape ('u' :: '\x7b' :: (digits ++ ['\x7d'])) (unitsOf n)
  /-- A line that goes on. -/
  | line {c : Char} (h : isLineBreak c = true) : Escape [c] []
  | lineFeed : Escape ['\r', '\n'] []

/-- What stands between single quotes, and what it means. -/
inductive Quoted : List Char → List Nat → Prop
  | nil : Quoted [] []
  | char {c : Char} {cs : List Char} {us : List Nat} (hquote : c ≠ '\x27') (hescape : c ≠ '\\')
      (hraw : E.standsRaw c = true) (h : Quoted cs us) : Quoted (c :: cs) (unitsOf c.toNat ++ us)
  | escape {escaped cs : List Char} {vs us : List Nat} (he : Escape escaped vs)
      (hzero : escaped = ['0'] → ∀ d ∈ cs.head?, d.isDigit = false) (h : Quoted cs us) :
      Quoted ('\\' :: (escaped ++ cs)) (vs ++ us)

/-- A string in single quotes that means `us`. -/
def Literal (text : List Char) (us : List Nat) : Prop :=
  ∃ body, text = '\x27' :: (body ++ ['\x27']) ∧ E.Quoted body us

variable {E}

/-! ### Reading keys -/

theorem standsRaw_of_not_isLineBreak {c : Char} (h : isLineBreak c = false) :
    E.standsRaw c = true := by
  rw [standsRaw, h]
  rfl

/-- After a backslash, a quote or a backslash stands for itself, and nothing longer begins with
one. -/
theorem Escape.of_cons {c : Char} (hc : c = '\\' ∨ c = '\x27') {escaped cs ds : List Char}
    {vs : List Nat} (he : Escape escaped vs) (h : escaped ++ cs = c :: ds) :
    escaped = [c] ∧ cs = ds ∧ vs = unitsOf c.toNat := by
  cases he with
  | short hunit =>
    obtain ⟨rfl, rfl⟩ := List.cons_eq_cons.1 h
    refine ⟨rfl, rfl, ?_⟩
    rcases hc with rfl | rfl <;> cases hunit <;> rfl
  | plain hnone =>
    obtain ⟨rfl, -⟩ := List.cons_eq_cons.1 h
    rcases hc with rfl | rfl <;> cases hnone
  | line hbreak =>
    obtain ⟨rfl, -⟩ := List.cons_eq_cons.1 h
    rcases hc with rfl | rfl <;> cases hbreak
  | zero | byte | unit | point | lineFeed =>
    obtain ⟨rfl, -⟩ := List.cons_eq_cons.1 h
    exact absurd hc (by decide)

theorem quoted_cons_iff {c : Char} (hquote : c ≠ '\x27') (hescape : c ≠ '\\') {cs : List Char}
    {us : List Nat} : E.Quoted (c :: cs) us ↔
      E.standsRaw c = true ∧ ∃ vs, E.Quoted cs vs ∧ us = unitsOf c.toNat ++ vs := by
  constructor
  · intro h
    cases h with
    | char _ _ hraw h => exact ⟨hraw, _, h, rfl⟩
    | escape => exact absurd rfl hescape
  · rintro ⟨hraw, vs, h, rfl⟩
    exact .char hquote hescape hraw h

theorem quoted_escaped_iff {c : Char} (hc : c = '\\' ∨ c = '\x27') {cs : List Char}
    {us : List Nat} : E.Quoted ('\\' :: c :: cs) us ↔
      ∃ vs, E.Quoted cs vs ∧ us = unitsOf c.toNat ++ vs := by
  constructor
  · generalize hcs : '\\' :: c :: cs = text
    intro h
    cases h with
    | nil => cases hcs
    | char _ hescape => exact absurd (List.cons_eq_cons.1 hcs).1.symm hescape
    | escape he _ h =>
      obtain ⟨rfl, rfl, rfl⟩ := he.of_cons hc (List.cons_eq_cons.1 hcs).2.symm
      exact ⟨_, h, rfl⟩
  · rintro ⟨vs, h, rfl⟩
    have he : Escape [c] (unitsOf c.toNat) := by
      rcases hc with rfl | rfl
      · exact .short rfl
      · exact .short rfl
    refine .escape he (fun hzero => ?_) h
    cases hzero
    exact absurd hc (by decide)

/-- Escaped, a text is read back as it was, unless it has a line break that may not stand there. -/
theorem quoted_escapeKey_iff {cs : List Char} {us : List Nat} :
    E.Quoted (escapeKey cs) us ↔ (∀ c ∈ cs, E.standsRaw c = true) ∧ us = units cs := by
  induction cs generalizing us with
  | nil =>
    constructor
    · intro h
      cases h
      exact ⟨fun _ hc => absurd hc List.not_mem_nil, rfl⟩
    · rintro ⟨-, rfl⟩
      exact .nil
  | cons c cs ih =>
    have hunits : units (c :: cs) = unitsOf c.toNat ++ units cs := List.flatMap_cons
    rw [escapeKey, List.forall_mem_cons, hunits]
    split
    · next hc =>
      have hc : c = '\\' ∨ c = '\x27' := by simpa using hc
      have hraw : E.standsRaw c = true := by
        refine standsRaw_of_not_isLineBreak ?_
        rcases hc with rfl | rfl <;> decide
      rw [quoted_escaped_iff hc, and_iff_right hraw]
      simp only [ih, and_assoc, exists_and_left, exists_eq_left]
    · next hc =>
      have hc : ¬ c = '\\' ∧ ¬ c = '\x27' := by simpa using hc
      rw [quoted_cons_iff hc.2 hc.1]
      simp only [ih, and_assoc, exists_and_left, exists_eq_left]

theorem literal_iff {cs : List Char} {us : List Nat} :
    E.Literal ('\x27' :: (cs ++ ['\x27'])) us ↔ E.Quoted cs us := by
  constructor
  · rintro ⟨body, htext, h⟩
    rwa [List.append_cancel_right (List.cons_eq_cons.1 htext).2]
  · exact fun h => ⟨cs, rfl, h⟩

/-! ### Keys that are written -/

theorem standsRaw_of_isIdentifier {name : String} (h : Naming.isIdentifier name = true) :
    ∀ c ∈ name.toList, E.standsRaw c = true := by
  intro c hc
  have hpart : Naming.isPart c = true := (Naming.isIdentifier_iff.1 h).1.parts c hc
  refine standsRaw_of_not_isLineBreak (Bool.eq_false_iff.2 fun hbreak => ?_)
  simp only [isLineBreak, Bool.or_eq_true, decide_eq_true_eq, or_assoc] at hbreak
  rcases hbreak with rfl | rfl | rfl | rfl <;> exact absurd hpart (by decide)

/-- No name begins with a quote. -/
theorem isName_cons_quote (cs : List Char) : E.isName ('\x27' :: cs) = false := by
  rw [Lexicon.isName, (E.ascii '\x27' (by decide)).1]
  rfl

/-- The key of a member is the name of the member, or a string that means this name. -/
def KeyFor (E : Edition) (key name : String) : Prop :=
  (key = name ∧ E.isName name.toList = true) ∨ E.Literal key.toList (units name.toList)

theorem keyFor_of_isIdentifier {name : String} (h : Naming.isIdentifier name = true) :
    E.KeyFor (memberKey name) name := by
  rw [memberKey, if_pos h]
  exact .inl ⟨rfl, Lexicon.isName_of_isIdentifier h⟩

theorem not_literal_of_isIdentifier {name : String} (h : Naming.isIdentifier name = true)
    (us : List Nat) : ¬ E.Literal (memberKey name).toList us := by
  rw [memberKey, if_pos h]
  rintro ⟨body, htext, -⟩
  have hname := Lexicon.isName_of_isIdentifier (L := E.toLexicon) h
  rw [htext, isName_cons_quote] at hname
  cases hname

theorem toList_memberKey {name : String} (h : Naming.isIdentifier name = false) :
    (memberKey name).toList = '\x27' :: (escapeKey name.toList ++ ['\x27']) := by
  rw [memberKey, if_neg (Bool.eq_false_iff.1 h), String.toList_ofList]

theorem literal_memberKey_iff {name : String} (h : Naming.isIdentifier name = false)
    {us : List Nat} : E.Literal (memberKey name).toList us ↔
      (∀ c ∈ name.toList, E.standsRaw c = true) ∧ us = units name.toList := by
  rw [toList_memberKey h, literal_iff, quoted_escapeKey_iff]

/-- A name that is no identifier gets a string, whatever names the language has. -/
theorem keyFor_iff_literal {name : String} (h : Naming.isIdentifier name = false) :
    E.KeyFor (memberKey name) name ↔ E.Literal (memberKey name).toList (units name.toList) := by
  refine or_iff_right fun hplain => ?_
  have hname := hplain.2
  rw [← hplain.1, toList_memberKey h, isName_cons_quote] at hname
  cases hname

/-- Keys of members are read back. The key that is written for a name is the name itself, where that
is one of the language, or a string in single quotes that means it, exactly if no line break stands
in the name but for separators where a string may have them. A string that is written never means
anything else. -/
theorem memberKey_keyFor_iff (E : Edition) (name : String) :
    (E.KeyFor (memberKey name) name ↔ ∀ c ∈ name.toList, E.standsRaw c = true) ∧
      ∀ us, E.Literal (memberKey name).toList us → us = units name.toList := by
  cases h : Naming.isIdentifier name with
  | true =>
    exact ⟨iff_of_true (keyFor_of_isIdentifier h) (standsRaw_of_isIdentifier h),
      fun us hliteral => absurd hliteral (not_literal_of_isIdentifier h us)⟩
  | false =>
    refine ⟨?_, fun us hliteral => ((literal_memberKey_iff h).1 hliteral).2⟩
    rw [keyFor_iff_literal h, literal_memberKey_iff h, and_iff_left rfl]

/-- An edition in which strings may have separators as they are. -/
def recent : Edition := { Lexicon.asciiOnly with rawSeparators := true }

/-- The string for a name of two lines is broken off at the end of the first one. -/
theorem not_keyFor_twoLines : ¬ recent.KeyFor (memberKey "two\nlines") "two\nlines" := by
  have hname : Naming.isIdentifier "two\nlines" = false := by decide
  rw [keyFor_iff_literal hname, literal_memberKey_iff hname]
  exact fun h => absurd (h.1 '\n' (by decide)) (by decide)

end Edition

end TypedClient.Code
