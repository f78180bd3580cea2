import TypedClient.Json.Reader

/-! Passing over values that nobody asks for. A value that is passed over may nest as deep as it
likes, its numbers may be of any size, and its strings may hold halves of surrogate pairs; a comma
at the end of a list or object is told by what is missing after it. -/

namespace TypedClient.Json

open Cursor

/-! ### Numbers and strings -/

/-- At least one digit, and all that follow. -/
def skipSomeDigits (c : Cursor) : Except ReadError Cursor :=
  match c.peek with
  | none => c.fail .invalidNumber
  | some ch => if ch.isDigit then .ok c.skipDigits else c.failHere .invalidNumber

/-- From the letter `e` on. -/
def skipExponent (c : Cursor) : Except ReadError Cursor :=
  let c := c.advance
  match c.peek with
  | some '+' | some '-' => skipSomeDigits c.advance
  | _ => skipSomeDigits c

def skipScale (c : Cursor) : Except ReadError Cursor :=
  match c.peek with
  | some 'e' | some 'E' => skipExponent c
  | _ => .ok c

/-- After the whole part of a number. -/
def skipFraction (c : Cursor) : Except ReadError Cursor :=
  match c.peek with
  | some '.' => do
    let c ← skipSomeDigits c.advance
    skipScale c
  | _ => skipScale c

/-- A number, from its first digit on. -/
def skipNumber (c : Cursor) : Except ReadError Cursor :=
  match c.peek with
  | some '0' =>
    let c := c.advance
    match c.peek with
    | some d => if d.isDigit then c.failHere .invalidNumber else skipFraction c
    | none => .ok c
  | _ => do
    let c ← skipSomeDigits c
    skipFraction c

/-- An escape, after its backslash. -/
def skipEscape (c : Cursor) : Except ReadError Cursor :=
  match c.peek with
  | none => c.fail .endInString
  | some ch =>
    if (escaped? ch).isSome then .ok c.advance
    else if ch = 'u' then (readHex c.advance).map Prod.snd
    else c.failHere .invalidEscape

/-- A string of fewer than `fuel` characters, after its opening quote. -/
def skipString : Nat → Cursor → Except ReadError Cursor
  | 0, c => c.fail .endInString
  | fuel + 1, c =>
    match c.peek with
    | none => c.fail .endInString
    | some ch =>
      if ch = '"' then .ok c.advance
      else if ch = '\\' then
        match skipEscape c.advance with
        | .ok c => skipString fuel c
        | .error e => .error e
      else if ch.toNat < 32 then c.fail .controlCharacter
      else skipString fuel c.advance

/-! ### Values -/

def skipScalar (fuel : Nat) (c : Cursor) : Except ReadError Cursor :=
  match c.peek with
  | none => c.fail .endInValue
  | some ch =>
    if ch = 'n' then readWord "ull".toList c.advance
    else if ch = 't' then readWord "rue".toList c.advance
    else if ch = 'f' then readWord "alse".toList c.advance
    else if ch = '-' then skipNumber c.advance
    else if ch.isDigit then skipNumber c
    else if ch = '"' then skipString fuel c.advance
    else c.failHere .expectedValue

/-- Whether a list goes on, with the cursor before its next value or at its closing bracket. -/
def moreToSkip (first : Bool) (c : Cursor) : Except ReadError (Bool × Cursor) :=
  let c := c.skipSpace
  match c.peek with
  | none => c.fail .endInList
  | some ch =>
    if ch = ']' then .ok (false, c)
    else if first then .ok (true, c)
    else if ch = ',' then .ok (true, c.advance)
    else c.failHere .expectedListEnd

/-- Past the name of the next member and its colon, if there is one; else the cursor is at the
closing brace. -/
def skipKey (fuel : Nat) (first : Bool) (c : Cursor) : Except ReadError (Bool × Cursor) :=
  let c := c.skipSpace
  let name (c : Cursor) : Except ReadError (Bool × Cursor) :=
    match c.peek with
    | none => c.fail .endInObject
    | some ch =>
      if ch = '"' then do
        let c ← skipString fuel c.advance
        let c ← readColon c
        pure (true, c)
      else c.failHere .keyNotString
  match c.peek with
  | none => c.fail .endInObject
  | some ch =>
    if ch = '}' then .ok (false, c)
    else if first then name c
    else if ch = ',' then name c.advance.skipSpace
    else c.failHere .expectedObjectEnd

mutual

/-- Past one value. -/
def skipValue : Nat → Cursor → Except ReadError Cursor
  | 0, c => c.fail .endInValue
  | fuel + 1, c =>
    let c := c.skipSpace
    if c.peek = some '[' then skipElements fuel true c.advance
    else if c.peek = some '{' then skipMembers fuel true c.advance
    else skipScalar fuel c

def skipElements : Nat → Bool → Cursor → Except ReadError Cursor
  | 0, _, c => c.fail .endInList
  | fuel + 1, first, c => do
    let (more, c) ← moreToSkip first c
    if more then
      let c ← skipValue fuel c
      skipElements fuel false c
    else pure c.advance

def skipMembers : Nat → Bool → Cursor → Except ReadError Cursor
  | 0, _, c => c.fail .endInObject
  | fuel + 1, first, c => do
    let (more, c) ← skipKey fuel first c
    if more then
      let c ← skipValue fuel c
      skipMembers fuel false c
    else pure c.advance

end

end TypedClient.Json
