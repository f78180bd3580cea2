/-! Numbers of the binary64 format, kept exactly: a sign, a significand and a power of two.
`ofRatio` rounds a fraction of naturals to the nearest such number; every operation on numbers is
exact arithmetic followed by that rounding. `shortest` goes the other way: the fewest decimal
digits that round to the number. Infinities and not-a-number do not occur. -/

namespace TypedClient

/-- The number `± significand * 2 ^ exponent`. -/
structure Binary64 where
  negative : Bool
  significand : Nat
  exponent : Int
  deriving DecidableEq, Repr, Inhabited

namespace Binary64

/-- The exponent of the smallest gap between two numbers. -/
def leastExponent : Int := -1074

/-- The largest exponent of a number with 53 significant bits. -/
def greatestExponent : Int := 971

def zero (negative : Bool) : Binary64 := ⟨negative, 0, leastExponent⟩

/-- `n * 2 ^ e` as a fraction. -/
def scaled (n : Nat) (e : Int) : Nat × Nat :=
  if 0 ≤ e then (n * Nat.pow 2 e.toNat, 1) else (n, Nat.pow 2 (-e).toNat)

/-- The quotient rounded to the nearest natural number, a half to the even one. -/
def roundDiv (num den : Nat) : Nat :=
  let q := num / den
  let r := 2 * (num % den)
  if den < r || (r == den && q % 2 == 1) then q + 1 else q

/-- The exponent at which `num / den` has 53 bits before the point, or the least one. -/
def exponentFor (num den : Nat) : Int :=
  let guess : Int := (num.log2 : Int) - (den.log2 : Int) - 52
  let (a, b) := scaled den guess
  -- `num / den` is at least `2 ^ (guess + 52)`, or the exponent is one less
  let e := if Nat.pow 2 52 * a ≤ num * b then guess else guess - 1
  if e < leastExponent then leastExponent else e

/-- The number nearest to `num / den`, of two equally near ones the even one; none when it is
beyond the largest. -/
def ofRatio (negative : Bool) (num den : Nat) : Option Binary64 :=
  if num = 0 then some (zero negative)
  else
    let e := exponentFor num den
    let (a, b) := scaled den e
    let m := roundDiv (num * b) a
    let (m, e) := if m = Nat.pow 2 53 then (Nat.pow 2 52, e + 1) else (m, e)
    if greatestExponent < e then none else some ⟨negative, m, e⟩

/-- The number as a fraction, without its sign. -/
def ratio (x : Binary64) : Nat × Nat := scaled x.significand x.exponent

def ofNat (n : Nat) : Option Binary64 := ofRatio false n 1

def neg (x : Binary64) : Binary64 := { x with negative := !x.negative }

def mul (x y : Binary64) : Option Binary64 :=
  ofRatio (x.negative != y.negative) (x.ratio.1 * y.ratio.1) (x.ratio.2 * y.ratio.2)

/-- The quotient, for a `y` other than zero. -/
def div (x y : Binary64) : Option Binary64 :=
  ofRatio (x.negative != y.negative) (x.ratio.1 * y.ratio.2) (x.ratio.2 * y.ratio.1)

/-- The number nearest to `10 ^ k`. -/
def tenPow (k : Nat) : Option Binary64 := ofRatio false (Nat.pow 10 k) 1

/-! ### Decimal scaling -/

/-- The largest power of ten below the largest number. -/
def maxTenPow : Nat := 308

/-- Divides by `10 ^ k`, in steps of at most `10 ^ 308`, each rounded. -/
def divTenPow (x : Binary64) (k : Nat) : Option Binary64 :=
  if k ≤ maxTenPow then (tenPow k).bind x.div
  else if x.significand = 0 then some x
  else ((tenPow maxTenPow).bind x.div).bind (divTenPow · (k - maxTenPow))
termination_by k
decreasing_by simp [maxTenPow] at *; omega

/-- `digits * 10 ^ exponent`: the digits are rounded first, then multiplied or divided by powers of
ten with a rounding after each step. None when it is out of range. -/
def ofDecimal (digits : Nat) (exponent : Int) : Option Binary64 :=
  (ofNat digits).bind fun x =>
    if exponent < 0 then divTenPow x (-exponent).toNat
    else if exponent.toNat ≤ maxTenPow then (tenPow exponent.toNat).bind x.mul
    else if x.significand = 0 then some x
    else none

/-! ### Shortest digits -/

/-- Decimal digits with the place of the point: `0.d₁d₂… * 10 ^ point`. -/
structure Decimal where
  digits : Nat
  point : Int
  deriving DecidableEq, Repr

/-- The two ends of the interval of fractions that round to `x`, over one denominator, and that
denominator. The ends belong to it when the significand is even. -/
def interval (x : Binary64) : Nat × Nat × Nat :=
  let (s, d) := scaled 1 (x.exponent - 2)
  let narrow := x.significand == Nat.pow 2 52 && leastExponent < x.exponent
  let low := if narrow then 4 * x.significand - 1 else 4 * x.significand - 2
  (low * s, (4 * x.significand + 2) * s, d)

/-- Whether `n * 10 ^ k` rounds to `x`. -/
def readsBack (x : Binary64) (n : Nat) (k : Int) : Bool :=
  let (low, high, d) := x.interval
  let (p, q) := if 0 ≤ k then (n * Nat.pow 10 k.toNat, 1) else (n, Nat.pow 10 (-k).toNat)
  let (v, low, high) := (p * d, low * q, high * q)
  if x.significand % 2 == 0 then low ≤ v && v ≤ high else low < v && v < high

/-- The least `k` with `num / den < 10 ^ k`, sought upward from `k`. -/
def pointFrom : Nat → Nat → Nat → Int → Int
  | 0, _, _, k => k
  | fuel + 1, num, den, k =>
    let (p, q) := if 0 ≤ k then (Nat.pow 10 k.toNat, 1) else (1, Nat.pow 10 (-k).toNat)
    if num * q < p * den then k else pointFrom fuel num den (k + 1)

/-- The place of the decimal point before the first significant digit. -/
def point (x : Binary64) : Int :=
  let bits : Int := (x.significand.log2 : Int) + x.exponent
  -- thirty tenths of a digit to a bit, from below
  let guess := if 0 ≤ bits then bits * 3 / 10 else bits * 4 / 10 - 1
  pointFrom 400 x.ratio.1 x.ratio.2 guess

/-- The neighbour of `x` with `n` digits that reads back, if one does; of two the nearer, and of
two equally near ones the even one. -/
def candidate (x : Binary64) (point : Int) (n : Nat) : Option Nat :=
  let k := point - (n : Int)
  let (p, q) := if 0 ≤ k then (1, Nat.pow 10 k.toNat) else (Nat.pow 10 (-k).toNat, 1)
  let (num, den) := (x.ratio.1 * p, x.ratio.2 * q)
  let down := num / den
  match x.readsBack down k, x.readsBack (down + 1) k with
  | true, false => some down
  | false, true => some (down + 1)
  | true, true =>
    let r := 2 * (num % den)
    some (if r < den || (r == den && down % 2 == 0) then down else down + 1)
  | false, false => none

/-- Moves the trailing zeros of the digits out of them. -/
def stripZeros : Nat → Nat → Nat
  | 0, n => n
  | fuel + 1, n => if n != 0 && n % 10 == 0 then stripZeros fuel (n / 10) else n

/-- The fewest decimal digits that round to `x`, without its sign. -/
def shortest (x : Binary64) : Decimal :=
  if x.significand = 0 then ⟨0, 1⟩
  else
    let point := x.point
    match (List.range 17).findSome? fun i => (x.candidate point (i + 1)).map (i + 1, ·) with
    | some (n, digits) =>
      -- rounding up may have made a power of ten, which has one digit more
      if digits = Nat.pow 10 n then ⟨1, point + 1⟩ else ⟨stripZeros 17 digits, point⟩
    | none => ⟨x.significand, point⟩

end Binary64

end TypedClient
