import TypedClient.Client.MediaTypeGrammar
import TypedClient.Proofs.Client.MediaTypes

/-! The grammar of media types does not depend on the case of letters: what it looks for is either
all letters or none. -/

namespace TypedClient

namespace MediaType

open Text

theorem caseless_isNameChar : Caseless isNameChar :=
  caseless_of_letters (b := true) fun c hc => by simp [isNameChar, Char.isAlphanum, hc]

theorem isGap_of_isAlpha {c : Char} (hc : c.isAlpha) : isGap c = false := by
  simp [isGap, ne_of_isAlpha hc]

theorem caseless_isGap : Caseless isGap :=
  caseless_of_letters (b := false) fun _ => isGap_of_isAlpha

theorem caseless_isEssenceChar : Caseless isEssenceChar :=
  caseless_of_letters (b := true) fun c hc => by
    simp [isEssenceChar, isGap_of_isAlpha hc, ne_of_isAlpha hc]

theorem isName_low (cs : List Char) : isName (low cs) = isName cs := by
  cases cs with
  | nil => rfl
  | cons c cs =>
    have hfirst : (c.toLower.isAlphanum || decide (c.toLower = '*')) =
        (c.isAlphanum || decide (c = '*')) := by
      simp [Char.isAlphanum, isDigit_toLower, toLower_eq_iff]
    show (_ && decide ((low (c :: cs)).length ≤ 127) && (low (c :: cs)).all isNameChar) = _
    rw [hfirst, caseless_isNameChar.all_low, length_low]
    rfl

theorem afterQuoted_low (cs : List Char) : afterQuoted (low cs) = (afterQuoted cs).map low := by
  induction cs using afterQuoted.induct with
  | case1 => rfl
  | case2 cs => rfl
  | case3 => rfl
  | case4 c cs ih =>
    rw [afterQuoted]
    exact ih
  | case5 c cs hquote hbreak hback ih =>
    show afterQuoted (c.toLower :: low cs) = _
    rw [afterQuoted, afterQuoted.eq_5 _ _ hquote hbreak hback]
    · exact ih
    · rwa [toLower_eq_iff (by decide)]
    · rwa [toLower_eq_iff (by decide)]
    · intro d ds hc hds
      obtain ⟨d, ds, rfl, -⟩ := List.map_eq_cons_iff.1 hds
      exact hback d ds ((toLower_eq_iff (by decide)).1 hc) rfl

theorem afterParameter_low (cs : List Char) :
    afterParameter (low cs) = (afterParameter cs).map low := by
  rw [afterParameter, afterParameter, caseless_isNameChar.takeWhile_low, isName_low,
    caseless_isNameChar.dropWhile_low]
  generalize cs.dropWhile isNameChar = rest
  split
  · rcases rest with _ | ⟨c, rest⟩
    · rfl
    · by_cases hc : c = '='
      · subst hc
        rcases rest with _ | ⟨d, rest⟩
        · rfl
        · have hvalue : (low (d :: rest)).dropWhile isNameChar = _ :=
            caseless_isNameChar.dropWhile_low
          by_cases hd : d = '"'
          · subst hd
            exact afterQuoted_low rest
          · have hd' : d.toLower ≠ '"' := fun h => hd ((toLower_eq_iff (by decide)).1 h)
            simpa [low_cons, hd, hd'] using hvalue
      · have hc' : c.toLower ≠ '=' := fun h => hc ((toLower_eq_iff (by decide)).1 h)
        simp [low_cons, hc, hc']
  · rfl

theorem areParameters_low (fuel : Nat) (cs : List Char) :
    areParameters fuel (low cs) = areParameters fuel cs := by
  induction fuel generalizing cs with
  | zero => rfl
  | succ fuel ih =>
    rw [areParameters, areParameters, caseless_isGap.dropWhile_low]
    rcases cs.dropWhile isGap with _ | ⟨c, rest⟩
    · rfl
    · by_cases hc : c = ';'
      · subst hc
        simp only [low_cons, show Char.toLower ';' = ';' from rfl, caseless_isGap.dropWhile_low]
        rcases rest.dropWhile isGap with _ | ⟨d, rest⟩
        · rfl
        · have hafter := afterParameter_low (d :: rest)
          simp only [low_cons] at hafter ⊢
          rw [hafter]
          cases afterParameter (d :: rest) with
          | none => rfl
          | some after => exact ih after
      · have hc' : c.toLower ≠ ';' := fun h => hc ((toLower_eq_iff (by decide)).1 h)
        simp [low_cons, hc, hc']

theorem isSuffix_low (cs : List Char) : isSuffix (low cs) = isSuffix cs := by
  cases cs with
  | nil => rfl
  | cons c cs =>
    show (isNameChar c.toLower && isName (low cs)) = _
    rw [caseless_isNameChar, isName_low]
    rfl

theorem splitSuffix_low (cs : List Char) :
    splitSuffix (low cs) = (low (splitSuffix cs).1, (splitSuffix cs).2.map low) := by
  have hplus : Caseless (· != '+') :=
    caseless_of_letters (b := true) fun c hc => by simp [ne_of_isAlpha hc]
  have hcontains : (low cs).contains '+' = cs.contains '+' := by
    simp [low, toLower_eq_iff]
  have hdrop : ∀ cs : List Char, (low cs).drop 1 = low (cs.drop 1) := fun _ => List.map_drop.symm
  unfold splitSuffix
  rw [hcontains]
  split
  · simp only [reverse_low, hplus.takeWhile_low, hplus.dropWhile_low, hdrop, Option.map_some]
  · rfl

/-- A text in small letters is a media type where the text is one: the same one in small letters. -/
theorem ofText?_lower (s : String) : ofText? (Text.lower s) = (ofText? s).map lower := by
  have hslash : Caseless (· != '/') :=
    caseless_of_letters (b := true) fun c hc => by simp [ne_of_isAlpha hc]
  have hsuffix : ∀ suffix : Option (List Char), (suffix.map low).all isSuffix =
      suffix.all isSuffix := fun suffix => by
    cases suffix with
    | none => rfl
    | some cs => exact isSuffix_low cs
  unfold ofText?
  simp only [toList_lower, hslash.takeWhile_low, hslash.dropWhile_low]
  rcases s.toList.dropWhile (· != '/') with _ | ⟨c, rest⟩
  · rfl
  · simp only [low_cons, length_low, caseless_isEssenceChar.takeWhile_low,
      caseless_isEssenceChar.dropWhile_low, splitSuffix_low, isName_low, hsuffix,
      areParameters_low]
    split <;> rfl

instance : LawfulReading := ⟨ofText?_lower⟩

end MediaType

end TypedClient
