import Criteria.Number.Binary64

/-!
# The shortest decimal that reads back

A finite number is written with the fewest digits that no other number of 64 bits is nearer to. On
the grid of the multiples of a power of ten only the two neighbours of the number matter, and the
first grid, from coarse to fine, with a neighbour between the halves of the gaps to the adjacent
numbers gives the digits. Of two such neighbours the nearer one is taken, and an exact tie is
decided by the format.

`NumberFormat` records the rest of a format: where positional notation ends and how an exponent is
written.
-/

namespace Criteria.Number

/-- A decimal number `digits * 10 ^ exponent`. -/
structure Decimal where
  digits : Nat
  exponent : Int
  deriving DecidableEq, Repr

/-- The quotient `num / (den * 10 ^ k)` as numerator and denominator. -/
def overTen (num den : Nat) (k : Int) : Nat × Nat :=
  if 0 ≤ k then (num, den * Nat.pow 10 k.toNat) else (num * Nat.pow 10 (-k).toNat, den)

/-- The exponent of the highest power of ten not above a positive quotient. -/
def floorLog10 (num den : Nat) : Int :=
  let guess : Int := ((num.log2 : Int) - den.log2) * 1233 / 4096
  let atLeast (k : Int) : Bool :=
    let (a, b) := overTen num den k
    b ≤ a
  if atLeast (guess + 1) then guess + 1
  else if atLeast guess then guess
  else guess - 1

/-- The numbers that are nearer to a given one than to any other, in quarters of its unit: from
`low` to `high`, ends included if `closed`. The gap below a power of two is half as wide as the one
above it. -/
structure Neighbourhood where
  low : Nat
  high : Nat
  closed : Bool

/-- The neighbourhood of a finite number. -/
def neighbourhood (x : Binary64) : Neighbourhood where
  low := if x.significand = Binary64.hiddenBit ∧ -1074 < x.exponent then 4 * x.significand - 1
    else 4 * x.significand - 2
  high := 4 * x.significand + 2
  closed := x.significand % 2 == 0

/-- The best of the two multiples of `10 ^ k` next to a number, if one reads back as the number.
The number is `4 * significand` units of `unit`, a power of two given as a quotient. -/
def onGrid? (x : Binary64) (tieUp : Bool) (unit : Nat × Nat) (k : Int) : Option Nat :=
  let n := neighbourhood x
  let (u, v) := overTen unit.1 unit.2 k
  let value := 4 * x.significand * u
  let below := value / v
  let inside (g : Nat) : Bool :=
    if n.closed then n.low * u ≤ g * v && g * v ≤ n.high * u
    else n.low * u < g * v && g * v < n.high * u
  match inside below, inside (below + 1) with
  | false, false => none
  | true, false => some below
  | false, true => some (below + 1)
  | true, true =>
    let twice := 2 * (value - below * v)
    if twice < v then some below
    else if v < twice then some (below + 1)
    else if tieUp || below % 2 == 1 then some (below + 1) else some below

/-- The first of `n` grids, from `10 ^ k` downwards, that has a decimal for the number. -/
def firstGrid (x : Binary64) (tieUp : Bool) (unit : Nat × Nat) : Nat → Int → Decimal
  | 0, k => ⟨4 * x.significand * unit.1 / unit.2, k⟩
  | n + 1, k =>
    match onGrid? x tieUp unit k with
    | some digits => ⟨digits, k⟩
    | none => firstGrid x tieUp unit n (k - 1)

/-- The shortest decimal for the magnitude of a finite number other than zero. -/
def shortest (x : Binary64) (tieUp : Bool) : Decimal :=
  let unit := Binary64.scaleTwo 1 1 (x.exponent - 2)
  firstGrid x tieUp unit 18 (floorLog10 (4 * x.significand * unit.1) unit.2)

/-- The decimal without the zeros at the end of its digits. -/
def Decimal.stripZeros (d : Decimal) : Decimal :=
  go d.digits.log2 d
where
  go : Nat → Decimal → Decimal
    | 0, d => d
    | n + 1, d =>
      if d.digits % 10 = 0 ∧ d.digits ≠ 0 then go n ⟨d.digits / 10, d.exponent + 1⟩ else d

/-- How a format writes numbers. -/
structure NumberFormat where
  /-- The least exponent, in scientific notation, that is written positionally. -/
  positionalFrom : Int
  /-- The least exponent above those. -/
  positionalTo : Int
  /-- Whether an exponent that is not negative has a plus sign. -/
  exponentPlus : Bool
  /-- Whether an exact tie between two shortest decimals goes up, or else to the even one. -/
  tieUp : Bool

/-- The decimal digits of a number. -/
def digitsOf (n : Nat) : String := toString n

/-- `count` zeros. -/
def zeros (count : Nat) : String := String.ofList (List.replicate count '0')

/-- Writes a positive decimal whose digits do not end in zero. -/
def NumberFormat.writeDecimal (f : NumberFormat) (d : Decimal) : String :=
  let digits := (digitsOf d.digits).toList
  let n := digits.length
  let e := d.exponent + (n : Int) - 1
  if f.positionalFrom ≤ e ∧ e < f.positionalTo then
    if e < 0 then "0." ++ zeros (-e - 1).toNat ++ String.ofList digits
    else if n ≤ e.toNat + 1 then String.ofList digits ++ zeros (e.toNat + 1 - n) ++ ".0"
    else
      String.ofList (digits.take (e.toNat + 1)) ++ "." ++
        String.ofList (digits.drop (e.toNat + 1))
  else
    let fraction := if n = 1 then "" else "." ++ String.ofList (digits.drop 1)
    let sign := if e < 0 then "-" else if f.exponentPlus then "+" else ""
    String.ofList (digits.take 1) ++ fraction ++ "e" ++ sign ++ digitsOf e.natAbs

/-- Writes a number; infinities and not-a-number have the names `inf`, `-inf` and `NaN`. -/
def NumberFormat.write (f : NumberFormat) (x : Binary64) : String :=
  if x.isNaN then "NaN"
  else
    let sign := if x.negative then "-" else ""
    if x.isInfinite then sign ++ "inf"
    else if x.isZero then sign ++ "0.0"
    else sign ++ f.writeDecimal (shortest x f.tieUp).stripZeros

end Criteria.Number
