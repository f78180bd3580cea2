import TypedClient.Text.Basic

/-! UTF-8 in both directions. `decode?` reads well-formed bytes only and says where the first
ill-formed sequence stands; `decodeLossy` puts one replacement character in the place of every
maximal ill-formed sequence. -/

namespace TypedClient.Text

def utf8 (cs : List Char) : List UInt8 := cs.flatMap String.utf8EncodeChar

/-- The character that the bytes begin with. -/
def decodeChar? (bytes : List UInt8) : Option Char :=
  bytes.toByteArray.utf8DecodeChar? 0

/-- Whether `b` may follow a first byte `a` of a longer sequence. -/
def mayFollow (a b : UInt8) : Bool :=
  if a == 0xE0 then 0xA0 ≤ b && b ≤ 0xBF
  else if a == 0xED then 0x80 ≤ b && b ≤ 0x9F
  else if a == 0xF0 then 0x90 ≤ b && b ≤ 0xBF
  else if a == 0xF4 then 0x80 ≤ b && b ≤ 0x8F
  else 0xC2 ≤ a && a ≤ 0xF4 && 0x80 ≤ b && b ≤ 0xBF

def isTail (b : UInt8) : Bool := 0x80 ≤ b && b ≤ 0xBF

/-- The length of the ill-formed sequence at the head of `bytes`, and whether it is one only
because the bytes end there: the longest beginning of a character, and at least one byte. -/
def illFormed : List UInt8 → Nat × Bool
  | a :: b :: c :: rest =>
    if !mayFollow a b then (1, false)
    else if !isTail c then (2, false)
    else (3, rest.isEmpty)
  | [a, b] => if mayFollow a b then (2, 0xE0 ≤ a) else (1, false)
  | [a] => (1, 0xC2 ≤ a && a ≤ 0xF4)
  | [] => (0, false)

/-- Why bytes are not UTF-8: the first ill-formed sequence, at `index`. -/
structure Utf8Fault where
  index : Nat
  length : Nat
  atEnd : Bool
  deriving DecidableEq, Repr

def Utf8Fault.message (f : Utf8Fault) : String :=
  if f.atEnd then "incomplete utf-8 byte sequence from index " ++ toString f.index
  else "invalid utf-8 sequence of " ++ toString f.length ++ " bytes from index " ++
    toString f.index

/-- Reads `fuel` characters at most; a text of `n` bytes has no more than `n`. -/
def decodeFrom : Nat → Nat → List UInt8 → Except Utf8Fault (List Char)
  | 0, _, _ | _, _, [] => .ok []
  | fuel + 1, index, bytes =>
    match decodeChar? bytes with
    | some c => (decodeFrom fuel (index + c.utf8Size) (bytes.drop c.utf8Size)).map (c :: ·)
    | none => .error ⟨index, (illFormed bytes).1, (illFormed bytes).2⟩

def decode? (bytes : List UInt8) : Except Utf8Fault String :=
  (decodeFrom bytes.length 0 bytes).map String.ofList

def decodeLossyFrom : Nat → List UInt8 → List Char
  | 0, _ | _, [] => []
  | fuel + 1, bytes =>
    match decodeChar? bytes with
    | some c => c :: decodeLossyFrom fuel (bytes.drop c.utf8Size)
    | none => '\uFFFD' :: decodeLossyFrom fuel (bytes.drop (illFormed bytes).1)

def decodeLossy (bytes : List UInt8) : String :=
  String.ofList (decodeLossyFrom bytes.length bytes)

end TypedClient.Text
