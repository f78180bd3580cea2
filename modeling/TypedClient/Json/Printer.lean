import TypedClient.Text.Basic
import TypedClient.Json.Value

/-! JSON text of a value, without any white space. A binary64 number is written with the fewest
digits that read back. -/

namespace TypedClient

/-- How the digits of a number are laid out: with a point below `10 ^ positionalBelow` and from
`10 ^ positionalFrom` on, with an exponent otherwise. -/
structure RealLayout where
  positionalFrom : Int
  positionalBelow : Int

/-- Numbers from `0.00001` to below `10 ^ 16` are written with a point. -/
def Json.realLayout : RealLayout := ⟨-5, 16⟩

namespace Binary64

def zeros (n : Int) : List Char := List.replicate n.toNat '0'

/-- Digits with a point in them, and with a zero on a side that has none. -/
def positional (digits : List Char) (point : Int) : List Char :=
  if point ≤ 0 then "0.".toList ++ zeros (-point) ++ digits
  else if (digits.length : Int) ≤ point then
    digits ++ zeros (point - (digits.length : Int)) ++ ".0".toList
  else digits.take point.toNat ++ '.' :: digits.drop point.toNat

/-- One digit before the point, and a signed exponent. -/
def exponential (digits : List Char) (point : Int) : List Char :=
  let fraction := match digits.drop 1 with
    | [] => []
    | ds => '.' :: ds
  let e := point - 1
  digits.take 1 ++ fraction ++ 'e' :: (if e < 0 then '-' else '+') :: (toString e.natAbs).toList

def textWith (layout : RealLayout) (x : Binary64) : String :=
  let ⟨digits, point⟩ := x.shortest
  let ds := (toString digits).toList
  let body :=
    if layout.positionalFrom < point && point ≤ layout.positionalBelow then positional ds point
    else exponential ds point
  String.ofList (if x.negative then '-' :: body else body)

end Binary64

def Number.text : Number → String
  | .int n => toString n
  | .real x => x.textWith Json.realLayout

namespace Json

def hexDigit (n : Nat) : Char := Char.ofNat (if n < 10 then 48 + n else 87 + n)

/-- A character inside quotes. -/
def escape (c : Char) : List Char :=
  if c = '"' then ['\\', '"']
  else if c = '\\' then ['\\', '\\']
  else if c = '\n' then ['\\', 'n']
  else if c = '\r' then ['\\', 'r']
  else if c = '\t' then ['\\', 't']
  else if c.toNat = 8 then ['\\', 'b']
  else if c.toNat = 12 then ['\\', 'f']
  else if c.toNat < 32 then
    ['\\', 'u', '0', '0', hexDigit (c.toNat / 16), hexDigit (c.toNat % 16)]
  else [c]

def quoted (s : String) : String :=
  String.ofList ('"' :: (s.toList.flatMap escape ++ ['"']))

mutual

def text : Json → String
  | .null => "null"
  | .bool b => if b then "true" else "false"
  | .num n => n.text
  | .str s => quoted s
  | .arr items => "[" ++ ",".intercalate (texts items) ++ "]"
  | .obj fields => "\x7b" ++ ",".intercalate (fieldTexts fields) ++ "\x7d"

def texts : List Json → List String
  | [] => []
  | v :: vs => text v :: texts vs

def fieldTexts : List (String × Json) → List String
  | [] => []
  | (k, v) :: fs => (quoted k ++ ":" ++ text v) :: fieldTexts fs

end

end Json

end TypedClient
