import TypedClient.Json.Cursor
import TypedClient.Json.Value

/-! Reading JSON text. The first fault in the text is the one reported. Numbers keep 64-bit
integers exactly; anything else is scaled to a binary64 number from its leading digits. Values may
nest 127 deep.

`readValue` keeps every member of an object, `parse` keeps one for each name. Readers of values take
a bound on their nested calls: twice the length of the text is never reached, since of any two such
calls one reads a character. -/

namespace TypedClient.Json

open Cursor

/-! ### Words -/

/-- Reads the characters of `word`, whose first one has been read. -/
def readWord : List Char → Cursor → Except ReadError Cursor
  | [], c => .ok c
  | w :: ws, c =>
    match c.peek with
    | none => c.fail .endInValue
    | some ch => if ch = w then readWord ws c.advance else c.failHere .expectedWord

/-! ### Numbers -/

/-- The largest integer kept exactly. -/
def maxWhole : Nat := 18446744073709551615

/-- The least integer kept exactly, without its sign. -/
def minWhole : Nat := 9223372036854775808

/-- The largest exponent that is counted out. -/
def maxExponent : Nat := 2147483647

/-- Appends decimal digits to `n` as long as it stays within `maxWhole`, and counts them. -/
def absorb (n : Nat) : List Char → Nat × Nat
  | [] => (n, 0)
  | ch :: cs =>
    if ch.isDigit then
      let m := 10 * n + (ch.toNat - 48)
      if m ≤ maxWhole then
        let (k, count) := absorb m cs
        (k, count + 1)
      else (n, 0)
    else (n, 0)

/-- `digits * 10 ^ exponent` with a sign, ending where `c` stands. -/
def finishReal (negative : Bool) (digits : Nat) (exponent : Int) (c : Cursor) :
    Except ReadError (Number × Cursor) :=
  match Binary64.ofDecimal digits exponent with
  | some x => .ok (.real { x with negative }, c)
  | none => c.fail .outOfRange

/-- The digits of an exponent; none when it is past counting, with the cursor after the digit that
made it so. -/
def readExponentDigits (n : Nat) : List Char → Cursor → Option Nat × Cursor
  | [], c => (some n, c)
  | ch :: cs, c =>
    if ch.isDigit then
      let m := 10 * n + (ch.toNat - 48)
      if m ≤ maxExponent then readExponentDigits m cs c.advance else (none, c.advance)
    else (some n, c)

/-- From the letter `e` on. -/
def readExponent (negative : Bool) (digits : Nat) (start : Int) (c : Cursor) :
    Except ReadError (Number × Cursor) :=
  let c := c.advance
  let (down, c) := match c.peek with
    | some '+' => (false, c.advance)
    | some '-' => (true, c.advance)
    | _ => (false, c)
  match c.peek with
  | none => c.fail .endInValue
  | some ch =>
    if !ch.isDigit then c.failHere .invalidNumber
    else match readExponentDigits 0 c.rest c with
      | (some e, c) =>
        finishReal negative digits (if down then start - (e : Int) else start + (e : Int)) c
      | (none, c) =>
        if digits != 0 && !down then c.fail .outOfRange
        else .ok (.real (Binary64.zero negative), c.skipDigits)

/-- After all digits: an exponent or the end of the number. -/
def readScale (negative : Bool) (digits : Nat) (exponent : Int) (c : Cursor) :
    Except ReadError (Number × Cursor) :=
  match c.peek with
  | some 'e' | some 'E' => readExponent negative digits exponent c
  | _ => finishReal negative digits exponent c

/-- From the point on. Digits that no longer fit are read and left out. -/
def readFraction (negative : Bool) (digits : Nat) (exponent : Int) (c : Cursor) :
    Except ReadError (Number × Cursor) :=
  let c := c.advance
  let (digits, count) := absorb digits c.rest
  let c := skip count c
  let exponent := exponent - (count : Int)
  match c.peek with
  | some ch =>
    if ch.isDigit then readScale negative digits exponent c.skipDigits
    else if count = 0 then c.failHere .invalidNumber
    else readScale negative digits exponent c
  | none => if count = 0 then c.fail .endInValue else readScale negative digits exponent c

/-- After the whole part. A whole number stays an integer within 64 bits, but minus zero does
not. -/
def readWholeEnd (negative : Bool) (digits : Nat) (c : Cursor) :
    Except ReadError (Number × Cursor) :=
  match c.peek with
  | some '.' => readFraction negative digits 0 c
  | some 'e' | some 'E' => readExponent negative digits 0 c
  | _ =>
    if !negative then .ok (.int digits, c)
    else if digits = 0 || minWhole < digits then finishReal true digits 0 c
    else .ok (.int (-(digits : Int)), c)

/-- After a whole part of which `dropped` digits did not fit. -/
def readLongEnd (negative : Bool) (digits dropped : Nat) (c : Cursor) :
    Except ReadError (Number × Cursor) :=
  match c.peek with
  | some '.' => readFraction negative digits dropped c
  | _ => readScale negative digits dropped c

/-- A number, from its first digit on. -/
def readNumber (negative : Bool) (c : Cursor) : Except ReadError (Number × Cursor) :=
  match c.peek with
  | none => c.fail .endInValue
  | some ch =>
    if ch = '0' then
      let c := c.advance
      match c.peek with
      | some d => if d.isDigit then c.failHere .invalidNumber else readWholeEnd negative 0 c
      | none => readWholeEnd negative 0 c
    else if ch.isDigit then
      let (digits, count) := absorb 0 c.rest
      let c := skip count c
      let dropped := (c.rest.takeWhile Char.isDigit).length
      if dropped = 0 then readWholeEnd negative digits c
      else readLongEnd negative digits dropped (skip dropped c)
    else c.failHere .invalidNumber

/-! ### Strings -/

def hexValue? (ch : Char) : Option Nat :=
  let n := ch.toNat
  if 48 ≤ n && n ≤ 57 then some (n - 48)
  else if 65 ≤ n && n ≤ 70 then some (n - 55)
  else if 97 ≤ n && n ≤ 102 then some (n - 87)
  else none

/-- Four hexadecimal digits. -/
def readHex (c : Cursor) : Except ReadError (Nat × Cursor) :=
  match c.place.afterBytes 4 c.rest with
  | none => .error { fault := .endInString, place := c.last }
  | some place =>
    match (c.rest.take 4).mapM hexValue? with
    | some [p, q, r, s] => .ok (((p * 16 + q) * 16 + r) * 16 + s, skip 4 c)
    | _ => .error { fault := .invalidEscape, place }

def isLeading (n : Nat) : Bool := 0xD800 ≤ n && n ≤ 0xDBFF

def isTrailing (n : Nat) : Bool := 0xDC00 ≤ n && n ≤ 0xDFFF

/-- One character that has to come next inside an escape. -/
def expectInEscape (ch : Char) (c : Cursor) : Except ReadError Cursor :=
  match c.peek with
  | none => c.fail .endInString
  | some d => if d = ch then .ok c.advance else c.failHere .unpairedEscape

/-- An escape by code units, from its hexadecimal digits on; two of them make one character. -/
def readUnits (c : Cursor) : Except ReadError (Char × Cursor) := do
  let (n, c) ← readHex c
  if isTrailing n then c.fail .loneSurrogate
  else if isLeading n then
    let c ← expectInEscape '\\' c
    let c ← expectInEscape 'u' c
    let (m, c) ← readHex c
    if isTrailing m then
      pure (Char.ofNat (0x10000 + (n - 0xD800) * 0x400 + (m - 0xDC00)), c)
    else c.fail .loneSurrogate
  else pure (Char.ofNat n, c)

/-- The character that a one-letter escape stands for. -/
def escaped? (ch : Char) : Option Char :=
  if ch = '"' || ch = '\\' || ch = '/' then some ch
  else if ch = 'b' then some (Char.ofNat 8)
  else if ch = 'f' then some (Char.ofNat 12)
  else if ch = 'n' then some '\n'
  else if ch = 'r' then some '\r'
  else if ch = 't' then some '\t'
  else none

/-- An escape, after its backslash. -/
def readEscape (c : Cursor) : Except ReadError (Char × Cursor) :=
  match c.peek with
  | none => c.fail .endInString
  | some ch =>
    match escaped? ch with
    | some d => .ok (d, c.advance)
    | none => if ch = 'u' then readUnits c.advance else c.failHere .invalidEscape

/-- The characters up to the closing quote; `acc` holds those read so far, last one first. -/
def readChars : Nat → Cursor → List Char → Except ReadError (String × Cursor)
  | 0, c, _ => c.fail .endInString
  | fuel + 1, c, acc =>
    match c.peek with
    | none => c.fail .endInString
    | some ch =>
      if ch = '"' then .ok (String.ofList acc.reverse, c.advance)
      else if ch = '\\' then
        match readEscape c.advance with
        | .ok (d, c) => readChars fuel c (d :: acc)
        | .error e => .error e
      else if ch.toNat < 32 then c.advance.fail .controlCharacter
      else readChars fuel c.advance (ch :: acc)

/-- A string of fewer than `fuel` characters, after its opening quote. -/
def readString (fuel : Nat) (c : Cursor) : Except ReadError (String × Cursor) := readChars fuel c []

/-! ### Values -/

/-- A value that is not a list or an object, or the fault of finding none. -/
def readScalar (fuel : Nat) (c : Cursor) : Except ReadError (Json × Cursor) :=
  match c.peek with
  | none => c.fail .endInValue
  | some ch =>
    if ch = 'n' then (readWord "ull".toList c.advance).map (.null, ·)
    else if ch = 't' then (readWord "rue".toList c.advance).map (.bool true, ·)
    else if ch = 'f' then (readWord "alse".toList c.advance).map (.bool false, ·)
    else if ch = '-' then (readNumber true c.advance).map fun (n, c) => (.num n, c)
    else if ch.isDigit then (readNumber false c).map fun (n, c) => (.num n, c)
    else if ch = '"' then (readString fuel c.advance).map fun (s, c) => (.str s, c)
    else c.failHere .expectedValue

/-- Whether a list goes on, with the cursor at its next value or closing bracket. -/
def moreElements (first : Bool) (c : Cursor) : Except ReadError (Bool × Cursor) :=
  let c := c.skipSpace
  match c.peek with
  | none => c.fail .endInList
  | some ch =>
    if ch = ']' then .ok (false, c)
    else if first then .ok (true, c)
    else if ch = ',' then
      let c := c.advance.skipSpace
      match c.peek with
      | none => c.fail .endInValue
      | some d => if d = ']' then c.failHere .trailingComma else .ok (true, c)
    else c.failHere .expectedListEnd

/-- Whether an object goes on, with the cursor at the quote of its next name or at the closing
brace. -/
def moreMembers (first : Bool) (c : Cursor) : Except ReadError (Bool × Cursor) :=
  let c := c.skipSpace
  match c.peek with
  | none => c.fail .endInObject
  | some ch =>
    if ch = '}' then .ok (false, c)
    else if first then
      if ch = '"' then .ok (true, c) else c.failHere .keyNotString
    else if ch = ',' then
      let c := c.advance.skipSpace
      match c.peek with
      | none => c.fail .endInValue
      | some d =>
        if d = '"' then .ok (true, c)
        else if d = '}' then c.failHere .trailingComma
        else c.failHere .keyNotString
    else c.failHere .expectedObjectEnd

/-- The name of the next member, if there is one; else the cursor is at the closing brace. -/
def readKey (fuel : Nat) (first : Bool) (c : Cursor) :
    Except ReadError (Option String × Cursor) := do
  let (more, c) ← moreMembers first c
  if more then
    let (key, c) ← readString fuel c.advance
    pure (some key, c)
  else pure (none, c)

def readColon (c : Cursor) : Except ReadError Cursor :=
  let c := c.skipSpace
  match c.peek with
  | none => c.fail .endInObject
  | some ch => if ch = ':' then .ok c.advance else c.failHere .expectedColon

/-- The number of lists and objects that may stand open at once is one less than this. -/
def depthLimit : Nat := 128

/-- Enters a list or an object: what is left of the depth. -/
def enter (room : Nat) (c : Cursor) : Except ReadError Nat :=
  if room ≤ 1 then c.failHere .tooDeep else .ok (room - 1)

mutual

def readValue : Nat → Nat → Cursor → Except ReadError (Json × Cursor)
  | 0, _, c => c.fail .endInValue
  | fuel + 1, room, c =>
    let c := c.skipSpace
    if c.peek = some '[' then do
      let room ← enter room c
      let (items, c) ← readElements fuel room 0 c.advance
      pure (.arr items, c.advance)
    else if c.peek = some '{' then do
      let room ← enter room c
      let (fields, c) ← readMembers fuel room true c.advance
      pure (.obj fields, c.advance)
    else readScalar fuel c

/-- The elements from number `index` on. -/
def readElements : Nat → Nat → Nat → Cursor → Except ReadError (List Json × Cursor)
  | 0, _, _, c => c.fail .endInList
  | fuel + 1, room, index, c => do
    let (more, c) ← moreElements (index == 0) c
    if more then
      let (v, c) ← inside (.index index) (readValue fuel room c)
      let (vs, c) ← readElements fuel room (index + 1) c
      pure (v :: vs, c)
    else pure ([], c)

def readMembers : Nat → Nat → Bool → Cursor → Except ReadError (List (String × Json) × Cursor)
  | 0, _, _, c => c.fail .endInObject
  | fuel + 1, room, first, c => do
    let (key?, c) ← inside .unknown (readKey fuel first c)
    match key? with
    | none => pure ([], c)
    | some key =>
      let c ← readColon c
      let (v, c) ← inside (.key key) (readValue fuel room c)
      let (fs, c) ← readMembers fuel room false c
      pure ((key, v) :: fs, c)

end

/-- Enough calls to read the text that is left. -/
def fuelFor (c : Cursor) : Nat := 2 * c.rest.length + 2

/-- Nothing but white space may be left. -/
def expectEnd (c : Cursor) : Except ReadError Unit :=
  let c := c.skipSpace
  match c.peek with
  | none => .ok ()
  | some _ => c.failHere .trailingCharacters

/-- The value that the whole text stands for. -/
def parse (text : String) : Except ReadError Json := do
  let c := Cursor.start text
  let (v, c) ← readValue (fuelFor c) depthLimit c
  expectEnd c
  pure v.unique

end TypedClient.Json
