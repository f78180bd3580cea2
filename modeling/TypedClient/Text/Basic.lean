/-! Text as lists of characters: white space, trimming, cutting into pieces and into lines.
Letters change case within ASCII only. Every function on `String` is its list counterpart between
`String.toList` and `String.ofList`, so that facts are proved on lists. -/

namespace TypedClient.Text

/-- White space: the 25 code points with that Unicode property. -/
def isBlank (c : Char) : Bool :=
  let n := c.toNat
  (9 ≤ n && n ≤ 13) || n == 0x20 || n == 0x85 || n == 0xA0 || n == 0x1680 ||
    (0x2000 ≤ n && n ≤ 0x200A) || n == 0x2028 || n == 0x2029 || n == 0x202F || n == 0x205F ||
    n == 0x3000

/-! ### Trimming -/

def trimChars (cs : List Char) : List Char :=
  ((cs.dropWhile isBlank).reverse.dropWhile isBlank).reverse

/-- Drops white space at both ends. -/
def trim (s : String) : String := String.ofList (trimChars s.toList)

/-! ### Case -/

def lower (s : String) : String := String.ofList (s.toList.map Char.toLower)

def upper (s : String) : String := String.ofList (s.toList.map Char.toUpper)

/-- Equality that does not tell ASCII capitals from small letters. -/
def sameLetters (s t : String) : Bool := lower s == lower t

/-! ### Beginnings and ends -/

def startsWith (s start : String) : Bool := start.toList.isPrefixOf s.toList

def endsWith (s ending : String) : Bool := ending.toList.isSuffixOf s.toList

/-! ### Pieces and lines -/

/-- The pieces between the characters that `cut` picks, in order; there is always one more piece
than there are such characters. -/
def pieces (cut : Char → Bool) : List Char → List (List Char)
  | [] => [[]]
  | c :: cs =>
    if cut c then [] :: pieces cut cs
    else match pieces cut cs with
      | [] => [[c]]
      | p :: ps => (c :: p) :: ps

theorem pieces_ne_nil (cut : Char → Bool) (cs : List Char) : pieces cut cs ≠ [] := by
  cases cs with
  | nil => simp [pieces]
  | cons c cs =>
    rw [pieces]
    split
    · simp
    · split <;> simp

def split (cut : Char → Bool) (s : String) : List String :=
  (pieces cut s.toList).map String.ofList

/-- A line without the carriage return before its line feed. -/
def dropReturn (cs : List Char) : List Char :=
  if cs.getLast? = some '\r' then cs.dropLast else cs

/-- The lines of a text, each without its terminator; a text that ends in a line feed has no empty
line after it. -/
def lines (s : String) : List String :=
  let ps := pieces (· == '\n') s.toList
  let last := match ps.getLast? with
    | none | some [] => []
    | some cs => [cs]
  (ps.dropLast.map dropReturn ++ last).map String.ofList

/-! ### Order -/

/-- Whether `s` comes before `t` or equals it, comparing code points; on encoded text this is the
order of the bytes. -/
def precedesChars : List Char → List Char → Bool
  | [], _ => true
  | _ :: _, [] => false
  | a :: s, b :: t => a.toNat < b.toNat || (a.toNat == b.toNat && precedesChars s t)

def precedes (s t : String) : Bool := precedesChars s.toList t.toList

/-- The order of lists of texts: by the first text that differs. -/
def precedesAll : List String → List String → Bool
  | [], _ => true
  | _ :: _, [] => false
  | a :: s, b :: t => if a = b then precedesAll s t else precedes a b

/-- Sorts texts by their code points. -/
def sort (ss : List String) : List String := ss.mergeSort precedes

/-! ### Numbers -/

/-- The natural number that a text of decimal digits stands for. -/
def digitsValue? (cs : List Char) : Option Nat :=
  if cs.isEmpty || !cs.all Char.isDigit then none
  else some (cs.foldl (fun n c => 10 * n + (c.toNat - 48)) 0)

/-! ### Sets of characters -/

/-- Ranges of code points, both ends included, in ascending order and apart from each other. -/
abbrev Ranges := List (Nat × Nat)

def Ranges.has (rs : Ranges) (c : Char) : Bool := rs.any fun r => r.1 ≤ c.toNat && c.toNat ≤ r.2

end TypedClient.Text
