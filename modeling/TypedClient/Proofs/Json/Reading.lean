import TypedClient.Json.Skip
import TypedClient.Proofs.Json.Grammar
import TypedClient.Proofs.Outcome

/-! Readers of JSON values against the grammar. A reader that succeeds has passed a value of the
grammar, and gives what that value stands for. What is only passed over is a value of the grammar as
well, though it may stand for nothing: its numbers may be too large, and its strings may have halves
of surrogate pairs. -/

namespace TypedClient.Json

open Cursor

variable {c c' : Cursor} {fuel : Nat} {ch : Char}

mutual

/-- A value as it is written. -/
def tree : Json → Tree
  | .null => .null
  | .bool b => .bool b
  | .num _ => .number
  | .str s => .string (some s)
  | .arr items => .list (trees items)
  | .obj fields => .object (memberTrees fields)

def trees : List Json → List Tree
  | [] => []
  | v :: vs => tree v :: trees vs

def memberTrees : List (String × Json) → List (Option String × Tree)
  | [] => []
  | (name, v) :: fields => (some name, tree v) :: memberTrees fields

end

theorem Digits.append {t a r : List Char} (h : Digits t a) (h' : Run Char.isDigit a r) :
    Digits t r := by
  obtain ⟨hd, h⟩ := h
  exact .mk hd (h.trans h')

theorem Digits.prepend {t a r : List Char} (h : Digits a r) (h' : Run Char.isDigit t a) :
    Digits t r := by
  obtain ⟨ds, hds, rfl⟩ := h'
  cases ds with
  | nil => exact h
  | cons d ds =>
    rw [List.forall_mem_cons] at hds
    obtain ⟨hd, h⟩ := h
    exact .mk hds.1 (.trans ⟨ds, hds.2, rfl⟩ (.cons hd h))

/-! ### Cursors -/

@[simp]
theorem rest_advance (c : Cursor) : c.advance.rest = c.rest.tail := by
  unfold advance
  split
  · next h => rw [h]; rfl
  · next h => rw [h]; rfl

@[simp]
theorem rest_skip (n : Nat) (c : Cursor) : (skip n c).rest = c.rest.drop n := by
  induction n generalizing c with
  | zero => rfl
  | succ n ih => rw [skip, ih, rest_advance, List.drop_tail]

theorem drop_length_takeWhile (p : Char → Bool) (t : List Char) :
    t.drop (t.takeWhile p).length = t.dropWhile p := by
  induction t with
  | nil => rfl
  | cons d t ih =>
    rw [List.takeWhile_cons, List.dropWhile_cons]
    cases p d <;> simp [ih]

theorem space_skipSpace (c : Cursor) : Space c.rest c.skipSpace.rest := by
  rw [skipSpace, rest_skip, drop_length_takeWhile]
  exact run_dropWhile ..

theorem run_skipDigits (c : Cursor) : Run Char.isDigit c.rest c.skipDigits.rest := by
  rw [skipDigits, rest_skip, drop_length_takeWhile]
  exact run_dropWhile ..

theorem digits_skipDigits (hpeek : c.peek = some ch) (hd : ch.isDigit) :
    Digits c.rest c.skipDigits.rest := by
  have hrest : c.rest = ch :: c.rest.tail := (List.cons_head?_tail hpeek).symm
  rw [skipDigits, rest_skip, drop_length_takeWhile, hrest, List.dropWhile_cons, if_pos hd]
  exact .mk hd (run_dropWhile ..)

theorem rest_of_peek (h : c.peek = some ch) : c.rest = ch :: c.advance.rest := by
  rw [rest_advance]
  exact (List.cons_head?_tail h).symm

/-! ### Words and numbers -/

theorem rest_of_readWord {ws : List Char} (h : readWord ws c = .ok c') : c.rest = ws ++ c'.rest := by
  induction ws generalizing c with
  | nil => rw [readWord] at h; cases h; rfl
  | cons w ws ih =>
    unfold readWord at h
    split at h
    · cases h
    · next ch hpeek =>
      split at h
      · next heq => rw [rest_of_peek hpeek, heq, ih h, List.cons_append]
      · cases h

theorem run_absorb (n : Nat) (t : List Char) : Run Char.isDigit t (t.drop (absorb n t).2) := by
  induction t generalizing n with
  | nil => exact .refl ..
  | cons d t ih =>
    unfold absorb
    dsimp only
    split
    · next hd =>
      split
      · exact .cons hd (ih _)
      · exact .refl ..
    · exact .refl ..

theorem digits_absorb {n : Nat} {t : List Char} (h : (absorb n t).2 ≠ 0) :
    Digits t (t.drop (absorb n t).2) := by
  cases t with
  | nil => exact absurd rfl h
  | cons d t =>
    unfold absorb at h ⊢
    dsimp only at h ⊢
    split at h
    · next hd =>
      split at h
      · next hm =>
        rw [if_pos hd, if_pos hm]
        exact .mk hd (run_absorb ..)
      · exact absurd rfl h
    · exact absurd rfl h

theorem absorb_ne_zero {d : Char} (hd : d.isDigit) (t : List Char) :
    (absorb 0 (d :: t)).2 ≠ 0 := by
  have hsmall : 10 * 0 + (d.toNat - 48) ≤ maxWhole := by
    have := d.val.toNat_lt
    rw [maxWhole, Char.toNat]
    omega
  unfold absorb
  dsimp only
  rw [if_pos hd, if_pos hsmall]
  exact Nat.succ_ne_zero _

theorem rest_of_finishReal {negative : Bool} {digits : Nat} {exponent : Int} {n : Number}
    (h : finishReal negative digits exponent c = .ok (n, c')) : c = c' := by
  unfold finishReal at h
  split at h
  · cases h; rfl
  · cases h

/-- The digits of an exponent, of which there is one at least. -/
theorem digits_readExponentDigits {n : Nat} {o : Option Nat} {d : Char} (hpeek : c.peek = some d)
    (hd : d.isDigit) (h : readExponentDigits n c.rest c = (o, c')) : Digits c.rest c'.rest := by
  have hrun : ∀ (t : List Char) (n : Nat) (c c' : Cursor) (o : Option Nat), c.rest = t →
      readExponentDigits n t c = (o, c') → Run Char.isDigit t c'.rest := by
    intro t
    induction t with
    | nil => intro n c c' o ht h; cases h; exact ht ▸ .refl ..
    | cons d t ih =>
      intro n c c' o ht h
      have htail : c.advance.rest = t := by rw [rest_advance, ht]; rfl
      unfold readExponentDigits at h
      split at h
      · next hd =>
        dsimp only at h
        split at h
        · exact .cons hd (ih _ _ _ _ htail h)
        · cases h; rw [htail]; exact .cons hd (.refl ..)
      · cases h; rw [ht]; exact .refl ..
  rw [rest_of_peek hpeek] at h ⊢
  unfold readExponentDigits at h
  rw [if_pos hd] at h
  dsimp only at h
  split at h
  · exact .mk hd (hrun _ _ _ _ _ rfl h)
  · cases h; exact .mk hd (.refl ..)

theorem exponent_of_readExponent {negative : Bool} {digits : Nat} {start : Int} {n : Number}
    (hpeek : c.peek = some ch) (he : ch = 'e' ∨ ch = 'E')
    (h : readExponent negative digits start c = .ok (n, c')) : Exponent c.rest c'.rest := by
  rw [rest_of_peek hpeek]
  unfold readExponent at h
  dsimp -iota -proj only at h
  split at h
  next down a hsigned =>
  have hsign : Sign c.advance.rest a.rest := by
    split at hsigned <;> cases hsigned
    · next hplus => rw [rest_of_peek hplus]; exact .plus
    · next hminus => rw [rest_of_peek hminus]; exact .minus
    · exact .none
  refine .digits he hsign ?_
  split at h
  · cases h
  · next d hdigit =>
    split at h
    · cases h
    · next hd =>
      rw [Bool.not_eq_true, Bool.not_eq_false'] at hd
      split at h
      · next hread =>
        rw [← rest_of_finishReal h]
        exact digits_readExponentDigits hdigit hd hread
      · next hread =>
        have hdigits := digits_readExponentDigits hdigit hd hread
        split at h
        · cases h
        · cases h
          exact hdigits.append (run_skipDigits _)

theorem exponent_of_readScale {negative : Bool} {digits : Nat} {exponent : Int} {n : Number}
    (h : readScale negative digits exponent c = .ok (n, c')) : Exponent c.rest c'.rest := by
  unfold readScale at h
  split at h
  · next hpeek => exact exponent_of_readExponent hpeek (.inl rfl) h
  · next hpeek => exact exponent_of_readExponent hpeek (.inr rfl) h
  · rw [rest_of_finishReal h]
    exact .none

theorem fraction_of_readFraction {negative : Bool} {digits : Nat} {exponent : Int} {n : Number}
    (hpeek : c.peek = some '.') (h : readFraction negative digits exponent c = .ok (n, c')) :
    ∃ a, Fraction c.rest a ∧ Exponent a c'.rest := by
  rw [rest_of_peek hpeek]
  unfold readFraction at h
  dsimp only at h
  have hrun := run_absorb digits c.advance.rest
  have hdigits := digits_absorb (n := digits) (t := c.advance.rest)
  generalize absorb digits c.advance.rest = absorbed at h hrun hdigits
  obtain ⟨m, count⟩ := absorbed
  dsimp only at h hrun hdigits
  rw [← rest_skip] at hrun hdigits
  split at h
  · next d hd =>
    split at h
    · next hdigit =>
      exact ⟨_, .digits ((digits_skipDigits hd hdigit).prepend hrun), exponent_of_readScale h⟩
    · split at h
      · cases h
      · next hcount => exact ⟨_, .digits (hdigits hcount), exponent_of_readScale h⟩
  · split at h
    · cases h
    · next hcount => exact ⟨_, .digits (hdigits hcount), exponent_of_readScale h⟩

theorem numeral_of_readWholeEnd {negative : Bool} {digits : Nat} {n : Number}
    (h : readWholeEnd negative digits c = .ok (n, c')) :
    ∃ a, Fraction c.rest a ∧ Exponent a c'.rest := by
  unfold readWholeEnd at h
  split at h
  · next hpeek => exact fraction_of_readFraction hpeek h
  · next hpeek => exact ⟨_, .none, exponent_of_readExponent hpeek (.inl rfl) h⟩
  · next hpeek => exact ⟨_, .none, exponent_of_readExponent hpeek (.inr rfl) h⟩
  · have hrest : c = c' := by
      split at h
      · cases h; rfl
      · split at h
        · exact rest_of_finishReal h
        · cases h; rfl
    exact hrest ▸ ⟨_, .none, .none⟩

theorem numeral_of_readLongEnd {negative : Bool} {digits dropped : Nat} {n : Number}
    (h : readLongEnd negative digits dropped c = .ok (n, c')) :
    ∃ a, Fraction c.rest a ∧ Exponent a c'.rest := by
  unfold readLongEnd at h
  split at h
  · next hpeek => exact fraction_of_readFraction hpeek h
  · exact ⟨_, .none, exponent_of_readScale h⟩

theorem unsigned_of_readNumber {negative : Bool} {n : Number}
    (h : readNumber negative c = .ok (n, c')) : Unsigned c.rest c'.rest := by
  unfold readNumber at h
  split at h
  · cases h
  · next d hpeek =>
    split at h
    · next hzero =>
      subst hzero
      rw [rest_of_peek hpeek]
      dsimp only at h
      obtain ⟨a, ha⟩ : ∃ a, Fraction c.advance.rest a ∧ Exponent a c'.rest := by
        split at h
        · split at h
          · cases h
          · exact numeral_of_readWholeEnd h
        · exact numeral_of_readWholeEnd h
      exact ⟨_, a, .zero, ha⟩
    · next hzero =>
      split at h
      · next hd =>
        have hwhole {b : Cursor}
            (h : Run Char.isDigit (skip (absorb 0 c.rest).2 c).rest b.rest) :
            Whole c.rest b.rest := by
          rw [rest_skip, rest_of_peek hpeek] at h
          rw [rest_of_peek hpeek]
          obtain ⟨-, hrun⟩ := (digits_absorb (absorb_ne_zero hd _)).append h
          exact .digits hd hzero hrun
        dsimp only at h
        split at h
        · obtain ⟨a, ha⟩ := numeral_of_readWholeEnd h
          exact ⟨_, a, hwhole (.refl ..), ha⟩
        · obtain ⟨a, ha⟩ := numeral_of_readLongEnd h
          exact ⟨_, a, hwhole (run_skipDigits _), ha⟩
      · cases h

/-! ### Strings -/

theorem codeUnit_of_readHex {n : Nat} (h : readHex c = .ok (n, c')) :
    CodeUnit c.rest n c'.rest := by
  unfold readHex at h
  split at h
  · cases h
  · split at h
    · next p q r s hdigits =>
      cases h
      rw [rest_skip]
      generalize c.rest = t at hdigits
      rcases t with _ | ⟨p', _ | ⟨q', _ | ⟨r', _ | ⟨s', t⟩⟩⟩⟩ <;>
        simp [Option.bind_eq_some_iff] at hdigits
      obtain ⟨hp, hq, hr, hs⟩ := hdigits
      exact .mk hp hq hr hs
    · cases h

theorem rest_of_expectInEscape (h : expectInEscape ch c = .ok c') : c.rest = ch :: c'.rest := by
  unfold expectInEscape at h
  split at h
  · cases h
  · next d hpeek =>
    split at h
    · next hd =>
      cases h
      rw [rest_of_peek hpeek, hd]
    · cases h

variable {s r : List Char}

theorem spells_of_readUnits (h : readUnits c = .ok (ch, c')) (hrest : Spells c'.rest s r) :
    Spells ('\\' :: 'u' :: c.rest) (ch :: s) r := by
  obtain ⟨⟨n, a⟩, hn, h⟩ := except_bind_eq_ok.1 h
  have hn := codeUnit_of_readHex hn
  dsimp only at h
  split at h
  · cases h
  · next htrail =>
    split at h
    · next hlead =>
      obtain ⟨b, hbackslash, h⟩ := except_bind_eq_ok.1 h
      obtain ⟨d, hu, h⟩ := except_bind_eq_ok.1 h
      obtain ⟨⟨m, e⟩, hm, h⟩ := except_bind_eq_ok.1 h
      rw [rest_of_expectInEscape hbackslash, rest_of_expectInEscape hu] at hn
      dsimp only at h
      split at h
      · next htrail =>
        obtain ⟨rfl, rfl⟩ := Prod.mk.inj (Except.ok.inj h)
        exact .pair hn hlead (codeUnit_of_readHex hm) htrail hrest
      · cases h
    · next hlead =>
      cases h
      exact .unit hn (Bool.eq_false_iff.2 hlead) (Bool.eq_false_iff.2 htrail) hrest

theorem spells_of_readEscape (h : readEscape c = .ok (ch, c')) (hrest : Spells c'.rest s r) :
    Spells ('\\' :: c.rest) (ch :: s) r := by
  unfold readEscape at h
  split at h
  · cases h
  · next e hpeek =>
    rw [rest_of_peek hpeek]
    split at h
    · next he => cases h; exact .short he hrest
    · split at h
      · next hu => exact hu ▸ spells_of_readUnits h hrest
      · cases h

theorem spells_of_readChars {acc : List Char} {text : String}
    (h : readChars fuel c acc = .ok (text, c')) :
    ∃ s, text.toList = acc.reverse ++ s ∧ Spells c.rest s c'.rest := by
  induction fuel generalizing c acc with
  | zero => cases h
  | succ fuel ih =>
    unfold readChars at h
    split at h
    · cases h
    · next d hpeek =>
      rw [rest_of_peek hpeek]
      split at h
      · next hquote =>
        cases h
        exact ⟨[], by simp, hquote ▸ .close⟩
      · next hquote =>
        split at h
        · next hbackslash =>
          split at h
          · next e b hescape =>
            obtain ⟨s, htext, hs⟩ := ih h
            exact ⟨e :: s, by simp [htext], hbackslash ▸ spells_of_readEscape hescape hs⟩
          · cases h
        · next hbackslash =>
          split at h
          · cases h
          · next hcontrol =>
            obtain ⟨s, htext, hs⟩ := ih h
            exact ⟨d :: s, by simp [htext], .plain ⟨hquote, hbackslash, Nat.le_of_not_lt hcontrol⟩ hs⟩

theorem named_of_readString {text : String} (h : readString fuel c = .ok (text, c')) :
    Named c.rest (some text) c'.rest := by
  obtain ⟨s, htext, hs⟩ := spells_of_readChars h
  rw [List.reverse_nil, List.nil_append] at htext
  exact .text (htext ▸ hs)

/-! ### Values -/

theorem value_of_readScalar {v : Json} (h : readScalar fuel c = .ok (v, c')) :
    Value c.rest v.tree c'.rest := by
  unfold readScalar at h
  split at h
  · cases h
  · next d hpeek =>
    have hrest := rest_of_peek hpeek
    split at h
    · next hd =>
      obtain ⟨a, hword, hv⟩ := except_map_eq_ok.1 h
      cases hv
      rw [hrest, hd, rest_of_readWord hword]
      exact .null
    split at h
    · next hd =>
      obtain ⟨a, hword, hv⟩ := except_map_eq_ok.1 h
      cases hv
      rw [hrest, hd, rest_of_readWord hword]
      exact .bool (b := true)
    split at h
    · next hd =>
      obtain ⟨a, hword, hv⟩ := except_map_eq_ok.1 h
      cases hv
      rw [hrest, hd, rest_of_readWord hword]
      exact .bool (b := false)
    split at h
    · next hd =>
      obtain ⟨⟨n, a⟩, hnumber, hv⟩ := except_map_eq_ok.1 h
      cases hv
      rw [hrest, hd]
      exact .number (.minus (unsigned_of_readNumber hnumber))
    split at h
    · obtain ⟨⟨n, a⟩, hnumber, hv⟩ := except_map_eq_ok.1 h
      cases hv
      exact .number (.plain (unsigned_of_readNumber hnumber))
    split at h
    · next hd =>
      obtain ⟨⟨s, a⟩, hstring, hv⟩ := except_map_eq_ok.1 h
      cases hv
      rw [hrest, hd]
      exact .string (named_of_readString hstring)
    · cases h

theorem comma_of_moreElements {first more : Bool} (h : moreElements first c = .ok (more, c')) :
    if more then ∃ a, Comma first c.rest a ∧ Space a c'.rest
    else Space c.rest c'.rest ∧ c'.peek = some ']' := by
  have hspace := space_skipSpace c
  unfold moreElements at h
  dsimp only at h
  generalize c.skipSpace = b at h hspace
  split at h
  · cases h
  · next d hpeek =>
    split at h
    · next hd => cases h; exact ⟨hspace, hd ▸ hpeek⟩
    split at h
    · next hfirst => cases h; subst hfirst; exact ⟨_, .first, hspace⟩
    split at h
    · next hfirst hd =>
      split at h
      · cases h
      · split at h
        · cases h
        · cases h
          rw [Bool.not_eq_true] at hfirst
          subst hfirst
          rw [rest_of_peek hpeek, hd] at hspace
          exact ⟨_, .next hspace, space_skipSpace _⟩
    · cases h

theorem quote_of_moreMembers {first more : Bool} (h : moreMembers first c = .ok (more, c')) :
    if more then ∃ a, Comma first c.rest a ∧ Space a c'.rest ∧ c'.peek = some '"'
    else Space c.rest c'.rest ∧ c'.peek = some '}' := by
  have hspace := space_skipSpace c
  unfold moreMembers at h
  dsimp only at h
  generalize c.skipSpace = b at h hspace
  split at h
  · cases h
  · next d hpeek =>
    split at h
    · next hd => cases h; exact ⟨hspace, hd ▸ hpeek⟩
    split at h
    · next hfirst =>
      split at h
      · next hd => cases h; subst hfirst; exact ⟨_, .first, hspace, hd ▸ hpeek⟩
      · cases h
    split at h
    · next hfirst hd =>
      split at h
      · cases h
      · next e hquote =>
        split at h
        · next he =>
          cases h
          rw [Bool.not_eq_true] at hfirst
          subst hfirst
          rw [rest_of_peek hpeek, hd] at hspace
          exact ⟨_, .next hspace, space_skipSpace _, he ▸ hquote⟩
        · split at h <;> cases h
    · cases h

theorem named_of_readKey {first : Bool} {key : String}
    (h : readKey fuel first c = .ok (some key, c')) :
    ∃ a b, Comma first c.rest a ∧ Space a ('"' :: b) ∧ Named b (some key) c'.rest := by
  obtain ⟨⟨more, a⟩, hmore, h⟩ := except_bind_eq_ok.1 h
  have hquote := quote_of_moreMembers hmore
  dsimp only at h
  split at h
  · next htrue =>
    obtain ⟨⟨name, b⟩, hname, h⟩ := except_bind_eq_ok.1 h
    cases h
    rw [if_pos htrue] at hquote
    obtain ⟨d, hcomma, hspace, hpeek⟩ := hquote
    exact ⟨d, _, hcomma, rest_of_peek hpeek ▸ hspace, named_of_readString hname⟩
  · cases h

theorem brace_of_readKey {first : Bool} (h : readKey fuel first c = .ok (none, c')) :
    Space c.rest c'.rest ∧ c'.peek = some '}' := by
  obtain ⟨⟨more, a⟩, hmore, h⟩ := except_bind_eq_ok.1 h
  have hquote := quote_of_moreMembers hmore
  dsimp only at h
  split at h
  · obtain ⟨_, -, h⟩ := except_bind_eq_ok.1 h
    cases h
  · next hfalse =>
    cases h
    rwa [if_neg hfalse] at hquote

theorem space_of_readColon (h : readColon c = .ok c') : Space c.rest (':' :: c'.rest) := by
  have hspace := space_skipSpace c
  unfold readColon at h
  dsimp only at h
  generalize c.skipSpace = b at h hspace
  split at h
  · cases h
  · next d hpeek =>
    split at h
    · next hd => cases h; rwa [rest_of_peek hpeek, hd] at hspace
    · cases h

theorem inside_eq_ok {α : Type} {step : PathStep} {x : Except ReadError α} {a : α} :
    inside step x = .ok a ↔ x = .ok a := by
  cases x with
  | ok => exact Iff.rfl
  | error => exact iff_of_false nofun nofun

mutual

/-- A value that is read is one that the text begins with, after white space. -/
theorem value_of_readValue : ∀ {fuel room : Nat} {c c' : Cursor} {v : Json},
    readValue fuel room c = .ok (v, c') → ∃ a, Space c.rest a ∧ Value a v.tree c'.rest
  | 0, _, _, _, _, h => by rw [readValue] at h; cases h
  | fuel + 1, room, c, c', v, h => by
    refine ⟨_, space_skipSpace c, ?_⟩
    unfold readValue at h
    dsimp only at h
    generalize c.skipSpace = b at h
    split at h
    · next hpeek =>
      obtain ⟨room, -, h⟩ := except_bind_eq_ok.1 h
      obtain ⟨⟨items, d⟩, hitems, h⟩ := except_bind_eq_ok.1 h
      cases h
      obtain ⟨hitems, hclose⟩ := items_of_readElements hitems
      rw [rest_of_peek hpeek]
      exact .list (rest_of_peek hclose ▸ hitems)
    split at h
    · next hpeek =>
      obtain ⟨room, -, h⟩ := except_bind_eq_ok.1 h
      obtain ⟨⟨fields, d⟩, hfields, h⟩ := except_bind_eq_ok.1 h
      cases h
      obtain ⟨hfields, hclose⟩ := members_of_readMembers hfields
      rw [rest_of_peek hpeek]
      exact .object (rest_of_peek hclose ▸ hfields)
    · exact value_of_readScalar h

theorem items_of_readElements : ∀ {fuel room index : Nat} {c c' : Cursor} {vs : List Json},
    readElements fuel room index c = .ok (vs, c') →
      Items (index == 0) c.rest (trees vs) c'.rest ∧ c'.peek = some ']'
  | 0, _, _, _, _, _, h => by rw [readElements] at h; cases h
  | fuel + 1, room, index, c, c', vs, h => by
    unfold readElements at h
    obtain ⟨⟨more, a⟩, hmore, h⟩ := except_bind_eq_ok.1 h
    have hcomma := comma_of_moreElements hmore
    dsimp only at h
    split at h
    · next htrue =>
      obtain ⟨⟨v, b⟩, hv, h⟩ := except_bind_eq_ok.1 h
      obtain ⟨⟨vs, d⟩, hvs, h⟩ := except_bind_eq_ok.1 h
      cases h
      rw [if_pos htrue] at hcomma
      obtain ⟨_, hcomma, hspace⟩ := hcomma
      obtain ⟨_, hspace', hv⟩ := value_of_readValue (inside_eq_ok.1 hv)
      obtain ⟨hvs, hclose⟩ := items_of_readElements hvs
      exact ⟨.cons hcomma (hspace.trans hspace') hv hvs, hclose⟩
    · next hfalse =>
      cases h
      rw [if_neg hfalse] at hcomma
      exact ⟨.nil hcomma.1, hcomma.2⟩

theorem members_of_readMembers : ∀ {fuel room : Nat} {first : Bool} {c c' : Cursor}
    {fields : List (String × Json)}, readMembers fuel room first c = .ok (fields, c') →
      Members first c.rest (memberTrees fields) c'.rest ∧ c'.peek = some '}'
  | 0, _, _, _, _, _, h => by rw [readMembers] at h; cases h
  | fuel + 1, room, first, c, c', fields, h => by
    unfold readMembers at h
    obtain ⟨⟨key?, a⟩, hkey, h⟩ := except_bind_eq_ok.1 h
    rw [inside_eq_ok] at hkey
    dsimp only at h
    split at h
    · cases h
      obtain ⟨hspace, hclose⟩ := brace_of_readKey hkey
      exact ⟨.nil hspace, hclose⟩
    · next key =>
      obtain ⟨b, hcolon, h⟩ := except_bind_eq_ok.1 h
      obtain ⟨⟨v, d⟩, hv, h⟩ := except_bind_eq_ok.1 h
      obtain ⟨⟨fields, e⟩, hfields, h⟩ := except_bind_eq_ok.1 h
      cases h
      obtain ⟨_, _, hcomma, hquote, hname⟩ := named_of_readKey hkey
      obtain ⟨_, hspace, hv⟩ := value_of_readValue (inside_eq_ok.1 hv)
      obtain ⟨hfields, hclose⟩ := members_of_readMembers hfields
      exact ⟨.cons hcomma hquote hname (space_of_readColon hcolon) hspace hv hfields, hclose⟩

end

section Skipping

variable {first more : Bool}

/-! ### Numbers and strings that are passed over -/

theorem digits_of_skipSomeDigits (h : skipSomeDigits c = .ok c') : Digits c.rest c'.rest := by
  unfold skipSomeDigits at h
  split at h
  · cases h
  · next d hpeek =>
    split at h
    · next hd => cases h; exact digits_skipDigits hpeek hd
    · cases h

theorem exponent_of_skipScale (h : skipScale c = .ok c') : Exponent c.rest c'.rest := by
  have hletter {e : Char} (hpeek : c.peek = some e) (he : e = 'e' ∨ e = 'E')
      (h : skipExponent c = .ok c') : Exponent c.rest c'.rest := by
    rw [rest_of_peek hpeek]
    unfold skipExponent at h
    dsimp only at h
    split at h
    · next hplus => exact .digits he (rest_of_peek hplus ▸ .plus) (digits_of_skipSomeDigits h)
    · next hminus => exact .digits he (rest_of_peek hminus ▸ .minus) (digits_of_skipSomeDigits h)
    · exact .digits he .none (digits_of_skipSomeDigits h)
  unfold skipScale at h
  split at h
  · next hpeek => exact hletter hpeek (.inl rfl) h
  · next hpeek => exact hletter hpeek (.inr rfl) h
  · cases h; exact .none

theorem fraction_of_skipFraction (h : skipFraction c = .ok c') :
    ∃ a, Fraction c.rest a ∧ Exponent a c'.rest := by
  unfold skipFraction at h
  split at h
  · next hpeek =>
    obtain ⟨a, ha, h⟩ := except_bind_eq_ok.1 h
    rw [rest_of_peek hpeek]
    exact ⟨_, .digits (digits_of_skipSomeDigits ha), exponent_of_skipScale h⟩
  · exact ⟨_, .none, exponent_of_skipScale h⟩

theorem unsigned_of_skipNumber (h : skipNumber c = .ok c') : Unsigned c.rest c'.rest := by
  unfold skipNumber at h
  split at h
  · next hpeek =>
    rw [rest_of_peek hpeek]
    dsimp only at h
    split at h
    · split at h
      · cases h
      · obtain ⟨a, ha⟩ := fraction_of_skipFraction h
        exact ⟨_, a, .zero, ha⟩
    · cases h; exact ⟨_, _, .zero, .none, .none⟩
  · next hzero =>
    obtain ⟨a, ha, h⟩ := except_bind_eq_ok.1 h
    obtain ⟨b, hb⟩ := fraction_of_skipFraction h
    have hdigits := digits_of_skipSomeDigits ha
    generalize ht : c.rest = t at hdigits
    obtain ⟨hd, hrun⟩ := hdigits
    refine ⟨_, b, .digits hd ?_ hrun, hb⟩
    rintro rfl
    exact hzero (by rw [peek, ht]; rfl)

theorem body_of_skipEscape {r : List Char} (h : skipEscape c = .ok c') (hrest : Body c'.rest r) :
    Body ('\\' :: c.rest) r := by
  unfold skipEscape at h
  split at h
  · cases h
  · next e hpeek =>
    rw [rest_of_peek hpeek]
    split at h
    · next he => cases h; exact .short he hrest
    · split at h
      · next hu =>
        obtain ⟨⟨n, a⟩, hn, ha⟩ := except_map_eq_ok.1 h
        cases ha
        exact hu ▸ .unit (codeUnit_of_readHex hn) hrest
      · cases h

theorem body_of_skipString (h : skipString fuel c = .ok c') : Body c.rest c'.rest := by
  induction fuel generalizing c with
  | zero => cases h
  | succ fuel ih =>
    unfold skipString at h
    split at h
    · cases h
    · next d hpeek =>
      rw [rest_of_peek hpeek]
      split at h
      · next hquote => cases h; exact hquote ▸ .close
      · next hquote =>
        split at h
        · next hbackslash =>
          split at h
          · next hescape => exact hbackslash ▸ body_of_skipEscape hescape (ih h)
          · cases h
        · next hbackslash =>
          split at h
          · cases h
          · next hcontrol => exact .plain ⟨hquote, hbackslash, Nat.le_of_not_lt hcontrol⟩ (ih h)

theorem exists_named {t r : List Char} (h : Body t r) : ∃ name, Named t name r := by
  by_cases htext : ∃ s, Spells t s r
  · obtain ⟨s, hs⟩ := htext
    exact ⟨some (String.ofList s), .text (String.toList_ofList ▸ hs)⟩
  · exact ⟨none, .none h fun s hs => htext ⟨s, hs⟩⟩

/-! ### Values that are passed over -/

theorem value_of_skipScalar (h : skipScalar fuel c = .ok c') : ∃ v, Value c.rest v c'.rest := by
  unfold skipScalar at h
  split at h
  · cases h
  · next d hpeek =>
    have hrest := rest_of_peek hpeek
    split at h
    · next hd => exact ⟨_, by rw [hrest, hd, rest_of_readWord h]; exact .null⟩
    split at h
    · next hd => exact ⟨_, by rw [hrest, hd, rest_of_readWord h]; exact .bool (b := true)⟩
    split at h
    · next hd => exact ⟨_, by rw [hrest, hd, rest_of_readWord h]; exact .bool (b := false)⟩
    split at h
    · next hd => exact ⟨_, by rw [hrest, hd]; exact .number (.minus (unsigned_of_skipNumber h))⟩
    split at h
    · exact ⟨_, .number (.plain (unsigned_of_skipNumber h))⟩
    split at h
    · next hd =>
      obtain ⟨name, hname⟩ := exists_named (body_of_skipString h)
      rw [hrest, hd]
      exact ⟨_, .string hname⟩
    · cases h

theorem comma_of_moreToSkip (h : moreToSkip first c = .ok (more, c')) :
    if more then ∃ a, Comma first c.rest a ∧ Space a c'.rest
    else Space c.rest c'.rest ∧ c'.peek = some ']' := by
  have hspace := space_skipSpace c
  unfold moreToSkip at h
  dsimp only at h
  generalize c.skipSpace = b at h hspace
  split at h
  · cases h
  · next d hpeek =>
    split at h
    · next hd => cases h; exact ⟨hspace, hd ▸ hpeek⟩
    split at h
    · next hfirst => cases h; subst hfirst; exact ⟨_, .first, hspace⟩
    split at h
    · next hfirst hd =>
      cases h
      rw [Bool.not_eq_true] at hfirst
      subst hfirst
      rw [rest_of_peek hpeek, hd] at hspace
      exact ⟨_, .next hspace, .refl ..⟩
    · cases h

theorem named_of_skipKey (h : skipKey fuel first c = .ok (more, c')) :
    if more then ∃ a b d name, Comma first c.rest a ∧ Space a ('"' :: b) ∧ Named b name d ∧
      Space d (':' :: c'.rest)
    else Space c.rest c'.rest ∧ c'.peek = some '}' := by
  -- from the quote on
  have hquoted {b : Cursor} {d : Char} (hpeek : b.peek = some d)
      (h : (if d = '"' then do
          let c ← skipString fuel b.advance
          let c ← readColon c
          pure (true, c)
        else b.failHere .keyNotString) = .ok (more, c')) :
      more = true ∧ ∃ e name, b.rest = '"' :: b.advance.rest ∧ Named b.advance.rest name e ∧
        Space e (':' :: c'.rest) := by
    split at h
    · next hquote =>
      obtain ⟨_, hbody, h⟩ := except_bind_eq_ok.1 h
      obtain ⟨_, hcolon, h⟩ := except_bind_eq_ok.1 h
      cases h
      obtain ⟨name, hname⟩ := exists_named (body_of_skipString hbody)
      exact ⟨rfl, _, name, hquote ▸ rest_of_peek hpeek, hname, space_of_readColon hcolon⟩
    · cases h
  have hspace := space_skipSpace c
  unfold skipKey at h
  dsimp only at h
  generalize c.skipSpace = b at h hspace
  split at h
  · cases h
  · next d hpeek =>
    split at h
    · next hd => cases h; exact ⟨hspace, hd ▸ hpeek⟩
    split at h
    · next hfirst =>
      obtain ⟨rfl, e, name, hrest, hname⟩ := hquoted hpeek h
      subst hfirst
      exact ⟨_, _, e, name, .first, hrest ▸ hspace, hname⟩
    split at h
    · next hfirst hd =>
      split at h
      · cases h
      · next hquote =>
        obtain ⟨rfl, e, name, hrest, hname⟩ := hquoted hquote h
        rw [Bool.not_eq_true] at hfirst
        subst hfirst
        rw [rest_of_peek hpeek, hd] at hspace
        exact ⟨_, _, e, name, .next hspace, hrest ▸ space_skipSpace _, hname⟩
    · cases h

mutual

/-- A value that is passed over is one that the text begins with, after white space. -/
theorem value_of_skipValue : ∀ {fuel : Nat} {c c' : Cursor}, skipValue fuel c = .ok c' →
    ∃ a v, Space c.rest a ∧ Value a v c'.rest
  | 0, _, _, h => by rw [skipValue] at h; cases h
  | fuel + 1, c, c', h => by
    have hspace := space_skipSpace c
    unfold skipValue at h
    dsimp only at h
    generalize c.skipSpace = b at h hspace
    split at h
    · next hpeek =>
      obtain ⟨items, hitems⟩ := items_of_skipElements h
      exact ⟨_, _, rest_of_peek hpeek ▸ hspace, .list hitems⟩
    split at h
    · next hpeek =>
      obtain ⟨members, hmembers⟩ := members_of_skipMembers h
      exact ⟨_, _, rest_of_peek hpeek ▸ hspace, .object hmembers⟩
    · obtain ⟨v, hv⟩ := value_of_skipScalar h
      exact ⟨_, _, hspace, hv⟩

theorem items_of_skipElements : ∀ {fuel : Nat} {first : Bool} {c c' : Cursor},
    skipElements fuel first c = .ok c' → ∃ vs, Items first c.rest vs (']' :: c'.rest)
  | 0, _, _, _, h => by rw [skipElements] at h; cases h
  | fuel + 1, first, c, c', h => by
    unfold skipElements at h
    obtain ⟨⟨more, a⟩, hmore, h⟩ := except_bind_eq_ok.1 h
    have hcomma := comma_of_moreToSkip hmore
    dsimp only at h
    split at h
    · next htrue =>
      obtain ⟨b, hv, h⟩ := except_bind_eq_ok.1 h
      rw [if_pos htrue] at hcomma
      obtain ⟨_, hcomma, hspace⟩ := hcomma
      obtain ⟨_, v, hspace', hv⟩ := value_of_skipValue hv
      obtain ⟨vs, hvs⟩ := items_of_skipElements h
      exact ⟨v :: vs, .cons hcomma (hspace.trans hspace') hv hvs⟩
    · next hfalse =>
      cases h
      rw [if_neg hfalse] at hcomma
      exact ⟨[], .nil (rest_of_peek hcomma.2 ▸ hcomma.1)⟩

theorem members_of_skipMembers : ∀ {fuel : Nat} {first : Bool} {c c' : Cursor},
    skipMembers fuel first c = .ok c' → ∃ ms, Members first c.rest ms ('}' :: c'.rest)
  | 0, _, _, _, h => by rw [skipMembers] at h; cases h
  | fuel + 1, first, c, c', h => by
    unfold skipMembers at h
    obtain ⟨⟨more, a⟩, hmore, h⟩ := except_bind_eq_ok.1 h
    have hname := named_of_skipKey hmore
    dsimp only at h
    split at h
    · next htrue =>
      obtain ⟨b, hv, h⟩ := except_bind_eq_ok.1 h
      rw [if_pos htrue] at hname
      obtain ⟨_, _, _, name, hcomma, hquote, hname, hcolon⟩ := hname
      obtain ⟨_, v, hspace, hv⟩ := value_of_skipValue hv
      obtain ⟨ms, hms⟩ := members_of_skipMembers h
      exact ⟨_ :: ms, .cons hcomma hquote hname hcolon hspace hv hms⟩
    · next hfalse =>
      cases h
      rw [if_neg hfalse] at hname
      exact ⟨[], .nil (rest_of_peek hname.2 ▸ hname.1)⟩

end

end Skipping

end TypedClient.Json
