import Criteria.Number.Binary64

/-!
# Decimal arithmetic on 96-bit mantissas

A `Scaled` number is a mantissa of 96 bits with a sign, divided by a power of ten from 0 to 28. Sums
and products are exact where they fit and else rounded to the finest scale that holds them; an
operation whose result does not fit at any scale has no result. Conversion from and to `Binary64`
keeps about 16 digits, so that decimals such as `0.1` come back as they were written.
-/

namespace Criteria.Number

/-- The number `mantissa / 10 ^ scale` with a sign. -/
structure Scaled where
  negative : Bool
  mantissa : Nat
  scale : Nat
  deriving DecidableEq, Repr

namespace Scaled

/-- Mantissas lie below this bound. -/
def bound : Nat := Nat.pow 2 96

/-- The largest scale. -/
def maxScale : Nat := 28

/-- Zero. -/
def zero : Scaled := ⟨false, 0, 0⟩

/-! ### From and to integers -/

/-- The decimal for an integer. -/
def ofInt (n : Int) : Scaled := ⟨n < 0, n.natAbs, 0⟩

/-- The integer part, toward zero. -/
def truncate (a : Scaled) : Int :=
  let whole : Int := (a.mantissa / Nat.pow 10 a.scale : Nat)
  if a.negative then -whole else whole

/-! ### From binary numbers -/

/-- Turns `m * 10 ^ e10 / 5 ^ n` into `m' * 10 ^ e10'`, by factors of five while there is room in
the mantissa and by halving it when there is none. -/
def clearFives : Nat → Nat → Int → Nat × Int
  | 0, m, e10 => (m, e10)
  | n + 1, m, e10 =>
    if m % 2 = 0 then clearFives n (m / 2) (e10 + 1)
    else if 5 * m < bound then clearFives n (5 * m) e10
    else clearFives n (m / 2) (e10 + 1)

/-- Turns `m * 10 ^ e10 * 5 ^ n`, the other way round, into `m' * 10 ^ e10'`. -/
def spreadFives : Nat → Nat → Int → Option (Nat × Int)
  | 0, m, e10 => some (m, e10)
  | n + 1, m, e10 =>
    if 2 * m < bound then spreadFives n (2 * m) (e10 - 1)
    else if 2 * e10 > n + 1 then none
    else spreadFives n (m / 5) e10

/-- Multiplies `n` factors of ten into a mantissa, if they fit. -/
def absorbTens : Nat → Nat → Option Nat
  | 0, m => some m
  | n + 1, m => if 10 * m < bound then absorbTens n (10 * m) else none

/-- Divides by `n` factors of ten, rounding at each; nothing may be left. -/
def shedTens : Nat → Nat → Nat × Nat
  | 0, m => (m, maxScale)
  | n + 1, m =>
    if m / 10 = 0 then (0, 0)
    else shedTens n (if m % 10 ≥ 5 then m / 10 + 1 else m / 10)

/-- Divides by ten, rounding, until the mantissa has at most 52 bits or the scale is zero. -/
def trimBits : Nat → Nat → Nat × Nat
  | 0, m => (m, 0)
  | s + 1, m =>
    if m < Binary64.hiddenBit then (m, s + 1)
    else trimBits s (if m % 10 ≥ 5 then m / 10 + 1 else m / 10)

/-- Divides by ten as long as that is exact and the scale is not zero. -/
def trimTens : Nat → Nat → Nat × Nat
  | 0, m => (m, 0)
  | s + 1, m => if m % 10 = 0 then trimTens s (m / 10) else (m, s + 1)

/-- The decimal for a finite binary number, if its magnitude is not too large. -/
def ofBinary? (x : Binary64) : Option Scaled := do
  if !x.isFinite then none
  else if x.isZero then return zero
  else
    let e := x.exponent
    let (m, e10) ←
      if e ≤ 0 then some (clearFives (-e).toNat x.significand e)
      else spreadFives e.toNat x.significand e
    let (m, s) ←
      if 0 ≤ e10 then (absorbTens e10.toNat m).map (·, 0)
      else if e10 < -28 then some (shedTens (-e10 - 28).toNat m)
      else some (m, (-e10).toNat)
    let (m, s) := trimBits s m
    let (m, s) := trimTens s m
    return ⟨x.negative, m, s⟩

/-! ### Arithmetic -/

/-- `num / 10 ^ scale` rounded to the finest scale up to `s` at which it fits, a half to even. -/
def fit? (negative : Bool) (num scale : Nat) : Nat → Option Scaled
  | 0 =>
    let m := roundHalfEven num (Nat.pow 10 scale)
    if m < bound then some ⟨negative, m, 0⟩ else none
  | s + 1 =>
    let m := roundHalfEven num (Nat.pow 10 (scale - (s + 1)))
    if m < bound then some ⟨negative, m, s + 1⟩ else fit? negative num scale s

/-- The signed mantissa at a larger scale. -/
def signedAt (a : Scaled) (scale : Nat) : Int :=
  let m : Int := a.mantissa * Nat.pow 10 (scale - a.scale)
  if a.negative then -m else m

/-- The number with the other sign, unless it is zero. -/
def neg (a : Scaled) : Scaled := if a.mantissa = 0 then a else { a with negative := !a.negative }

/-- A number whose mantissa is zero has no sign. -/
def unsignedZero (a : Scaled) : Scaled := if a.mantissa = 0 then { a with negative := false } else a

/-- A sum. -/
def add? (a b : Scaled) : Option Scaled :=
  if a.mantissa = 0 then some b
  else if b.mantissa = 0 then some a
  else
    let s := max a.scale b.scale
    let sum := a.signedAt s + b.signedAt s
    (fit? (sum < 0) sum.natAbs s s).map unsignedZero

/-- A difference. -/
def sub? (a b : Scaled) : Option Scaled := add? a b.neg

/-- A product. One that rounds to zero keeps its sign if a mantissa has more than 32 bits. -/
def mul? (a b : Scaled) : Option Scaled :=
  if a.mantissa = 0 ∨ b.mantissa = 0 then some zero
  else
    let s := a.scale + b.scale
    let product := fit? (a.negative != b.negative) (a.mantissa * b.mantissa) s (min maxScale s)
    if UInt32.size ≤ a.mantissa ∨ UInt32.size ≤ b.mantissa then product
    else product.map unsignedZero

/-- How many digits the next step of a long division adds to the quotient `q`: as many as fit, nine
at most. -/
def digitsToAdd (q : Nat) (scale : Int) : Nat :=
  let fits (p : Nat) : Bool := (p : Int) ≤ 28 - scale && q * Nat.pow 10 p < bound
  ((List.range 10).reverse.find? fits).getD 0

/-- The steps of a long division with quotient `q`, remainder `r` and divisor `d`: quotient, remainder
and scale, once the remainder is zero or no further digit fits. -/
def divideSteps (d : Nat) : Nat → Nat → Nat → Int → Option (Nat × Nat × Int)
  | 0, _, _, _ => none
  | n + 1, q, r, scale =>
    let next (p : Nat) : Option (Nat × Nat × Int) :=
      if q * Nat.pow 10 p < bound then
        divideSteps d n (q * Nat.pow 10 p + r * Nat.pow 10 p / d) (r * Nat.pow 10 p % d) (scale + p)
      else none
    if r = 0 then
      if 0 ≤ scale then some (q, r, scale) else next (min 9 (-scale).toNat)
    else
      let p := if scale = 28 then 0 else digitsToAdd q scale
      if p < 9 ∧ p + scale < 0 then none
      else if p = 0 then some (q, r, scale)
      else next p

/-- Removes factors of `10 ^ 8` while the low 32 bits of the mantissa are zero. -/
def trimEights : Nat → Nat → Nat × Nat
  | s, m =>
    if 8 ≤ s ∧ m % UInt32.size = 0 ∧ m % Nat.pow 10 8 = 0 then
      trimEights (s - 8) (m / Nat.pow 10 8)
    else (m, s)
termination_by s => s

/-- Removes a factor of `10 ^ k` once if it divides the mantissa and the scale allows. -/
def trimOnce (k : Nat) (p : Nat × Nat) : Nat × Nat :=
  if k ≤ p.2 ∧ p.1 % Nat.pow 10 k = 0 then (p.1 / Nat.pow 10 k, p.2 - k) else p

/-- Removes zeros at the end of a mantissa by eights, then by four, two and one. -/
def trimZeros (p : Nat × Nat) : Nat × Nat :=
  trimOnce 1 (trimOnce 2 (trimOnce 4 (trimEights p.2 p.1)))

/-- The quotient and scale of a division by `d` that ends at scale `s` with quotient `q` and remainder
`r`, rounded once, a half to even: at this scale if that fits, and else with a digit less. -/
def settle? (d q r s : Nat) : Option (Nat × Nat) :=
  let m := roundHalfEven (q * d + r) d
  if m < bound then some (m, s)
  else if s = 0 then none
  else some (roundHalfEven (q * d + r) (10 * d), s - 1)

/-- A quotient, to the last digit that fits. -/
def div? (a b : Scaled) : Option Scaled :=
  if b.mantissa = 0 then none
  else if a.mantissa = 0 then some zero
  else do
    let left := a.mantissa % b.mantissa
    let (q, r, scale) ← divideSteps b.mantissa 64 (a.mantissa / b.mantissa) left
      ((a.scale : Int) - b.scale)
    let p ← settle? b.mantissa q r scale.toNat
    let p := if left = 0 then p else trimZeros p
    return ⟨a.negative != b.negative, p.1, p.2⟩

/-- The remainder of a division whose quotient is truncated. -/
def rem? (a b : Scaled) : Option Scaled :=
  if b.mantissa = 0 then none
  else
    let s := max a.scale b.scale
    let x := (a.signedAt s).natAbs
    let y := (b.signedAt s).natAbs
    if x < y then some a
    else if x % y = 0 then some zero
    else some ⟨a.negative, x % y, s⟩

/-! ### To binary numbers -/

/-- A power of ten by repeated squaring, every product rounded. -/
def powerOfTen : Nat → Nat → Binary64 → Binary64 → Binary64
  | 0, _, r, _ => r
  | fuel + 1, s, r, a =>
    let r := if s % 2 = 1 then r.mul a else r
    if s / 2 = 0 then r else powerOfTen fuel (s / 2) r (a.mul a)

/-- The binary number for a decimal: whole and fractional part are converted apart, and the sum is
rounded to the digits of the scale. -/
def toBinary (a : Scaled) : Binary64 :=
  if a.scale = 0 then Binary64.ofRatio (a.negative && a.mantissa != 0) a.mantissa 1
  else
    let power := Nat.pow 10 a.scale
    let whole := Binary64.ofNat (a.mantissa / power)
    let fraction := (Binary64.ofNat (a.mantissa % power)).div (Binary64.ofNat power)
    let magnitude :=
      if fraction.isZero then whole
      else
        let w := powerOfTen 8 a.scale (Binary64.ofNat 1) (Binary64.ofNat 10)
        (((whole.add fraction).mul w).round).div w
    magnitude.withSign a.negative

end Scaled

end Criteria.Number
