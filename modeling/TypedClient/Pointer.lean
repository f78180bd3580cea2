import TypedClient.Failure
import TypedClient.Text.Utf8
import TypedClient.Json.Reader

/-! Pointers into a document: `#/components/schemas/Pet`. A pointer is percent-encoded UTF-8, and in
each of its segments `~1` stands for a slash and `~0` for a tilde. -/

namespace TypedClient.Pointer

/-! ### Escapes -/

/-- Bytes with every `%` and its two hexadecimal digits read as one byte; a `%` without two digits
stands for itself. -/
def percentDecode : List UInt8 → List UInt8
  | [] => []
  | b :: p :: q :: rest =>
    if b = 0x25 then
      match Json.hexValue? (Char.ofNat p.toNat), Json.hexValue? (Char.ofNat q.toNat) with
      | some x, some y => UInt8.ofNat (16 * x + y) :: percentDecode rest
      | _, _ => b :: percentDecode (p :: q :: rest)
    else b :: percentDecode (p :: q :: rest)
  | b :: rest => b :: percentDecode rest

/-- Reads a tilde followed by `digit` as `meaning`. -/
def unescapeTilde (digit meaning : Char) : List Char → List Char
  | '~' :: d :: rest =>
    if d = digit then meaning :: unescapeTilde digit meaning rest
    else '~' :: unescapeTilde digit meaning (d :: rest)
  | c :: rest => c :: unescapeTilde digit meaning rest
  | [] => []

/-- A segment as the name it stands for: slashes first, then tildes. -/
def unescape (cs : List Char) : List Char := unescapeTilde '0' '~' (unescapeTilde '1' '/' cs)

/-! ### Names -/

/-- What follows the last slash. -/
def lastSegment (reference : String) : List Char :=
  (Text.pieces (· == '/') reference.toList).getLast?.getD []

/-- The name of the component that a reference points at: its last segment, decoded. Bytes that are
not UTF-8 are replaced. -/
def componentName (reference : String) : String :=
  let decoded := Text.decodeLossy (percentDecode (Text.utf8 (lastSegment reference)))
  String.ofList (unescape decoded.toList)

/-! ### Looking up -/

/-- The position that a segment names in a list: decimal digits without leading zeros. -/
def position? (cs : List Char) : Option Nat :=
  if cs.head? = some '0' && cs.length != 1 then none
  else (Text.digitsValue? cs).filter (· < Nat.pow 2 64)

/-- One segment further into a value. -/
def step (v : Json) (segment : List Char) : Option Json :=
  match v with
  | .obj fields => Assoc.get? fields (String.ofList segment)
  | .arr items => (position? segment).bind (items[·]?)
  | _ => none

/-- The value at a decoded pointer, which is empty or begins with a slash. -/
def walk (root : Json) (pointer : List Char) : Option Json :=
  match pointer with
  | [] => some root
  | '/' :: rest => ((Text.pieces (· == '/') rest).map unescape).foldlM step root
  | _ => none

/-- The value that a reference within the document points at; references elsewhere have none. -/
def lookup (root : Json) (reference : String) : Option Json :=
  match reference.toList with
  | '#' :: pointer =>
    match Text.decode? (percentDecode (Text.utf8 pointer)) with
    | .ok decoded => walk root decoded.toList
    | .error _ => none
  | _ => none

/-! ### Following -/

/-- The number of references looked at before a chain counts as endless. -/
def maxHops : Nat := 32

/-- The reference that a value consists of. -/
def reference? (v : Json) : Option String := v.getString? "$ref"

def followWithin (root : Json) : Nat → Json → Except Failure Json
  | 0, _ => .error (.invalidDocument (.longReferenceChain maxHops))
  | n + 1, v =>
    match reference? v with
    | none => .ok v
    | some reference =>
      match lookup root reference with
      | none => .error (.unresolvedReference reference)
      | some v => followWithin root n v

/-- Follows references to parameters, bodies and responses until a value without one. -/
def follow (root v : Json) : Except Failure Json := followWithin root maxHops v

end TypedClient.Pointer
