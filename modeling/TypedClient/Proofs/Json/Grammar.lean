import TypedClient.Json.Reader

/-! The grammar of JSON texts, as relations between a text and what is left of it after a value. It
says nothing of how large a number is or how deep values nest. Main statement: where a list or an
object ends is told by its brackets, so that what follows it is the same in every reading. -/

namespace TypedClient.Json

open Cursor (isSpace)

/-! ### The grammar -/

/-- A value as it is written. Numbers are not told apart; a string with half of a surrogate pair has
no text. -/
inductive Tree where
  | null
  | bool (b : Bool)
  | number
  | string (text : Option String)
  | list (items : List Tree)
  | object (members : List (Option String × Tree))

/-- `r` is left of `t` after characters of a kind. -/
def Run (p : Char → Bool) (t r : List Char) : Prop := ∃ cs, (∀ c ∈ cs, p c) ∧ t = cs ++ r

/-- White space, or none. -/
abbrev Space : List Char → List Char → Prop := Run isSpace

/-- One digit or more. -/
inductive Digits : List Char → List Char → Prop
  | mk {d : Char} {t r : List Char} (hd : d.isDigit) (h : Run Char.isDigit t r) : Digits (d :: t) r

inductive Whole : List Char → List Char → Prop
  | zero {t : List Char} : Whole ('0' :: t) t
  | digits {d : Char} {t r : List Char} (hd : d.isDigit) (hzero : d ≠ '0')
    (h : Run Char.isDigit t r) : Whole (d :: t) r

inductive Fraction : List Char → List Char → Prop
  | none {t : List Char} : Fraction t t
  | digits {t r : List Char} (h : Digits t r) : Fraction ('.' :: t) r

inductive Sign : List Char → List Char → Prop
  | none {t : List Char} : Sign t t
  | plus {t : List Char} : Sign ('+' :: t) t
  | minus {t : List Char} : Sign ('-' :: t) t

inductive Exponent : List Char → List Char → Prop
  | none {t : List Char} : Exponent t t
  | digits {e : Char} {t a r : List Char} (he : e = 'e' ∨ e = 'E') (hs : Sign t a)
    (h : Digits a r) : Exponent (e :: t) r

/-- A number without a sign. -/
def Unsigned (t r : List Char) : Prop := ∃ a b, Whole t a ∧ Fraction a b ∧ Exponent b r

inductive Numeral : List Char → List Char → Prop
  | plain {t r : List Char} (h : Unsigned t r) : Numeral t r
  | minus {t r : List Char} (h : Unsigned t r) : Numeral ('-' :: t) r

/-- Four hexadecimal digits and their number. -/
inductive CodeUnit : List Char → Nat → List Char → Prop
  | mk {p q r s : Char} {a b c d : Nat} {t : List Char} (hp : hexValue? p = some a)
    (hq : hexValue? q = some b) (hr : hexValue? r = some c) (hs : hexValue? s = some d) :
    CodeUnit (p :: q :: r :: s :: t) (((a * 16 + b) * 16 + c) * 16 + d) t

/-- A character that stands for itself in a string. -/
def StandsPlain (c : Char) : Prop := c ≠ '"' ∧ c ≠ '\\' ∧ 32 ≤ c.toNat

/-- A string after its opening quote. -/
inductive Body : List Char → List Char → Prop
  | close {t : List Char} : Body ('"' :: t) t
  | plain {c : Char} {t r : List Char} (hc : StandsPlain c) (h : Body t r) : Body (c :: t) r
  | short {e : Char} {t r : List Char} (he : (escaped? e).isSome) (h : Body t r) :
    Body ('\\' :: e :: t) r
  | unit {t a r : List Char} {n : Nat} (hn : CodeUnit t n a) (h : Body a r) :
    Body ('\\' :: 'u' :: t) r

/-- A string after its opening quote, with the text that it stands for. Two code units make a
character beyond 16 bits. -/
inductive Spells : List Char → List Char → List Char → Prop
  | close {t : List Char} : Spells ('"' :: t) [] t
  | plain {c : Char} {t s r : List Char} (hc : StandsPlain c) (h : Spells t s r) :
    Spells (c :: t) (c :: s) r
  | short {e d : Char} {t s r : List Char} (he : escaped? e = some d) (h : Spells t s r) :
    Spells ('\\' :: e :: t) (d :: s) r
  | unit {t a s r : List Char} {n : Nat} (hn : CodeUnit t n a) (hlead : isLeading n = false)
    (htrail : isTrailing n = false) (h : Spells a s r) :
    Spells ('\\' :: 'u' :: t) (Char.ofNat n :: s) r
  | pair {t a b s r : List Char} {n m : Nat} (hn : CodeUnit t n ('\\' :: 'u' :: a))
    (hlead : isLeading n = true) (hm : CodeUnit a m b) (htrail : isTrailing m = true)
    (h : Spells b s r) :
    Spells ('\\' :: 'u' :: t) (Char.ofNat (0x10000 + (n - 0xD800) * 0x400 + (m - 0xDC00)) :: s) r

/-- A string after its opening quote, with its text if it has one. -/
inductive Named : List Char → Option String → List Char → Prop
  | text {t r : List Char} {s : String} (h : Spells t s.toList r) : Named t (some s) r
  | none {t r : List Char} (h : Body t r) (hbroken : ∀ s, ¬Spells t s r) : Named t none r

/-- A comma before every part but the first one. -/
inductive Comma : Bool → List Char → List Char → Prop
  | first {t : List Char} : Comma true t t
  | next {t r : List Char} (h : Space t (',' :: r)) : Comma false t r

mutual

/-- `t` begins with a value, and `r` is what follows. -/
inductive Value : List Char → Tree → List Char → Prop
  | null {t : List Char} : Value ("null".toList ++ t) .null t
  | bool {b : Bool} {t : List Char} :
    Value ((if b then "true" else "false").toList ++ t) (.bool b) t
  | number {t r : List Char} (h : Numeral t r) : Value t .number r
  | string {t r : List Char} {text : Option String} (h : Named t text r) :
    Value ('"' :: t) (.string text) r
  | list {t r : List Char} {items : List Tree} (h : Items true t items (']' :: r)) :
    Value ('[' :: t) (.list items) r
  | object {t r : List Char} {members : List (Option String × Tree)}
    (h : Members true t members ('}' :: r)) : Value ('{' :: t) (.object members) r

/-- The values of a list, up to its closing bracket. -/
inductive Items : Bool → List Char → List Tree → List Char → Prop
  | nil {first : Bool} {t r : List Char} (h : Space t r) : Items first t [] r
  | cons {first : Bool} {t a b c r : List Char} {v : Tree} {vs : List Tree}
    (hcomma : Comma first t a) (hspace : Space a b) (h : Value b v c) (rest : Items false c vs r) :
    Items first t (v :: vs) r

/-- The members of an object, up to its closing brace. -/
inductive Members : Bool → List Char → List (Option String × Tree) → List Char → Prop
  | nil {first : Bool} {t r : List Char} (h : Space t r) : Members first t [] r
  | cons {first : Bool} {t a b c d e f r : List Char} {name : Option String} {v : Tree}
    {ms : List (Option String × Tree)} (hcomma : Comma first t a) (hquote : Space a ('"' :: b))
    (hname : Named b name c) (hcolon : Space c (':' :: d)) (hspace : Space d e) (h : Value e v f)
    (rest : Members false f ms r) : Members first t ((name, v) :: ms) r

end

variable {t a r : List Char}

/-! ### Runs of characters -/

theorem Run.refl (p : Char → Bool) (t : List Char) : Run p t t :=
  ⟨[], fun _ h => absurd h List.not_mem_nil, rfl⟩

theorem Run.cons {p : Char → Bool} {c : Char} (hc : p c) (h : Run p t r) : Run p (c :: t) r := by
  obtain ⟨cs, hcs, rfl⟩ := h
  exact ⟨c :: cs, List.forall_mem_cons.2 ⟨hc, hcs⟩, rfl⟩

theorem Run.trans {p : Char → Bool} (h : Run p t a) (h' : Run p a r) : Run p t r := by
  obtain ⟨cs, hcs, rfl⟩ := h
  obtain ⟨ds, hds, rfl⟩ := h'
  exact ⟨cs ++ ds, List.forall_mem_append.2 ⟨hcs, hds⟩, (List.append_assoc ..).symm⟩

theorem run_dropWhile (p : Char → Bool) (t : List Char) : Run p t (t.dropWhile p) :=
  ⟨t.takeWhile p, List.all_eq_true.1 List.all_takeWhile, (List.takeWhile_append_dropWhile ..).symm⟩

/-! ### Where lists and objects end -/

/-- Where a place stands: outside of strings, in one, or there after a backslash. -/
inductive Region where
  | outside | inString | afterBackslash

/-- What follows the bracket that closes everything, where `depth` lists and objects are open besides
the outermost one. -/
def beyond : Nat → Region → List Char → List Char
  | _, _, [] => []
  | depth, .outside, c :: t =>
    if c = '"' then beyond depth .inString t
    else if c = '[' || c = '{' then beyond (depth + 1) .outside t
    else if c = ']' || c = '}' then
      match depth with
      | 0 => t
      | depth + 1 => beyond depth .outside t
    else beyond depth .outside t
  | depth, .inString, c :: t =>
    if c = '"' then beyond depth .outside t
    else if c = '\\' then beyond depth .afterBackslash t
    else beyond depth .inString t
  | depth, .afterBackslash, _ :: t => beyond depth .inString t

/-- A character that neither opens nor closes anything. -/
abbrev IsNeutral (c : Char) : Prop := c ∉ ['"', '[', ']', '{', '}']

/-- Passing from `t` to `r` opens nothing that it does not close. -/
def Balanced (t r : List Char) : Prop := ∀ depth, beyond depth .outside t = beyond depth .outside r

theorem IsNeutral.balanced {c : Char} (hc : IsNeutral c) (t : List Char) :
    Balanced (c :: t) t := by
  intro depth
  simp only [IsNeutral, List.mem_cons, List.not_mem_nil, or_false, not_or] at hc
  simp [beyond, hc]

theorem Balanced.trans (h : Balanced t a) (h' : Balanced a r) : Balanced t r :=
  fun depth => (h depth).trans (h' depth)

theorem balanced_append {cs : List Char} (hcs : ∀ c ∈ cs, IsNeutral c) (t : List Char) :
    Balanced (cs ++ t) t := by
  induction cs with
  | nil => exact fun _ => rfl
  | cons c cs ih =>
    rw [List.forall_mem_cons] at hcs
    exact (hcs.1.balanced _).trans (ih hcs.2)

theorem Run.balanced {p : Char → Bool} (h : Run p t r) (hp : ∀ c, p c → IsNeutral c) :
    Balanced t r := by
  obtain ⟨cs, hcs, rfl⟩ := h
  exact balanced_append (fun c hc => hp c (hcs c hc)) r

theorem isNeutral_of_isSpace {c : Char} (h : isSpace c) : IsNeutral c := by
  simp only [isSpace, Bool.or_eq_true, decide_eq_true_eq] at h
  rcases h with ((rfl | rfl) | rfl) | rfl <;> decide

theorem isNeutral_of_isDigit {c : Char} (h : c.isDigit) : IsNeutral c := by
  intro hmem
  simp only [List.mem_cons, List.not_mem_nil, or_false] at hmem
  rcases hmem with rfl | rfl | rfl | rfl | rfl <;> cases h

theorem Digits.balanced (h : Digits t r) : Balanced t r := by
  obtain ⟨hd, h⟩ := h
  exact (isNeutral_of_isDigit hd).balanced _ |>.trans (h.balanced fun _ => isNeutral_of_isDigit)

theorem Unsigned.balanced (h : Unsigned t r) : Balanced t r := by
  obtain ⟨a, b, hwhole, hfraction, hexponent⟩ := h
  have hfirst : Balanced t a := by
    cases hwhole with
    | zero => exact IsNeutral.balanced (by decide) _
    | digits hd _ h =>
      exact (isNeutral_of_isDigit hd).balanced _ |>.trans (h.balanced fun _ => isNeutral_of_isDigit)
  have hsecond : Balanced a b := by
    cases hfraction with
    | none => exact fun _ => rfl
    | digits h => exact (IsNeutral.balanced (by decide) _).trans h.balanced
  have hthird : Balanced b r := by
    cases hexponent with
    | none => exact fun _ => rfl
    | digits he hs h =>
      refine (IsNeutral.balanced (by rcases he with rfl | rfl <;> decide) _).trans ?_
      cases hs with
      | none => exact h.balanced
      | plus | minus => exact (IsNeutral.balanced (by decide) _).trans h.balanced
  exact (hfirst.trans hsecond).trans hthird

theorem beyond_inString {c : Char} (hquote : c ≠ '"') (hbackslash : c ≠ '\\') (depth : Nat)
    (t : List Char) : beyond depth .inString (c :: t) = beyond depth .inString t := by
  simp [beyond, hquote, hbackslash]

theorem hexValue?_quote_backslash {c : Char} {n : Nat} (h : hexValue? c = some n) :
    c ≠ '"' ∧ c ≠ '\\' := by
  constructor <;> rintro rfl <;> exact absurd (h.symm.trans (by decide)) (Option.some_ne_none n)

theorem CodeUnit.beyond_eq {n : Nat} (h : CodeUnit t n r) (depth : Nat) :
    beyond depth .inString t = beyond depth .inString r := by
  have hdigit {c : Char} {n : Nat} (h : hexValue? c = some n) (t : List Char) :
      beyond depth .inString (c :: t) = beyond depth .inString t :=
    beyond_inString (hexValue?_quote_backslash h).1 (hexValue?_quote_backslash h).2 depth t
  obtain ⟨hp, hq, hr, hs⟩ := h
  rw [hdigit hp, hdigit hq, hdigit hr, hdigit hs]

theorem Body.beyond_eq (h : Body t r) (depth : Nat) :
    beyond depth .inString t = beyond depth .outside r := by
  induction h with
  | close => rfl
  | plain hc _ ih => rw [beyond_inString hc.1 hc.2.1, ih]
  | short _ _ ih => exact ih
  | unit hn _ ih => exact (hn.beyond_eq depth).trans ih

theorem Spells.body {s : List Char} (h : Spells t s r) : Body t r := by
  induction h with
  | close => exact .close
  | plain hc _ ih => exact .plain hc ih
  | short he _ ih => exact .short (he ▸ rfl) ih
  | unit hn _ _ _ ih => exact .unit hn ih
  | pair hn _ hm _ _ ih => exact .unit hn (.unit hm ih)

theorem Named.body {s : Option String} (h : Named t s r) : Body t r := by
  cases h with
  | text h => exact h.body
  | none h => exact h

theorem Named.balanced {s : Option String} (h : Named t s r) : Balanced ('"' :: t) r :=
  h.body.beyond_eq

theorem Space.balanced (h : Space t r) : Balanced t r := Run.balanced h fun _ => isNeutral_of_isSpace

theorem Comma.balanced {first : Bool} (h : Comma first t r) : Balanced t r := by
  cases h with
  | first => exact fun _ => rfl
  | next h => exact h.balanced.trans (IsNeutral.balanced (by decide) _)

mutual

theorem Value.balanced {t r : List Char} {v : Tree} : Value t v r → Balanced t r
  | .null => balanced_append (by simp [IsNeutral]) _
  | .bool (b := b) => balanced_append (by cases b <;> simp [IsNeutral]) _
  | .number (.plain h) => h.balanced
  | .number (.minus h) => (IsNeutral.balanced (by decide) _).trans h.balanced
  | .string h => h.balanced
  | .list h => fun depth => h.balanced (depth + 1)
  | .object h => fun depth => h.balanced (depth + 1)

theorem Items.balanced {first : Bool} {t r : List Char} {vs : List Tree} :
    Items first t vs r → Balanced t r
  | .nil h => h.balanced
  | .cons hcomma hspace h rest =>
    ((hcomma.balanced.trans hspace.balanced).trans h.balanced).trans rest.balanced

theorem Members.balanced {first : Bool} {t r : List Char} {ms : List (Option String × Tree)} :
    Members first t ms r → Balanced t r
  | .nil h => h.balanced
  | .cons hcomma hquote hname hcolon hspace h rest =>
    ((((((hcomma.balanced.trans hquote.balanced).trans hname.balanced).trans hcolon.balanced).trans
      (IsNeutral.balanced (by decide) _)).trans hspace.balanced).trans h.balanced).trans
      rest.balanced

end

/-- Whether a value is a list or an object. -/
def Tree.IsBracketed : Tree → Prop
  | .list _ | .object _ => True
  | _ => False

variable {v : Tree}

/-- White space before a list or an object ends where it can. -/
theorem Value.dropWhile_eq (h : Value a v r) (hv : v.IsBracketed) (hspace : Space t a) :
    t.dropWhile isSpace = a := by
  obtain ⟨cs, hcs, rfl⟩ := hspace
  rw [List.dropWhile_append_of_pos hcs]
  cases h with
  | list | object => exact List.dropWhile_cons_of_neg (by decide)
  | null | bool | number | string => cases hv

/-- What follows a list or an object is the same however it is read. -/
theorem Value.beyond_eq (h : Value t v r) (hv : v.IsBracketed) :
    beyond 0 .outside t.tail = r := by
  cases h with
  | list h => exact h.balanced 0
  | object h => exact h.balanced 0
  | null | bool | number | string => cases hv

end TypedClient.Json
