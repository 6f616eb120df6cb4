import Criteria.Number.Rounding

/-!
# Binary floating-point numbers

Numbers of 64 bits: a sign, an exponent of 11 bits and a fraction of 52 bits. They are kept as their
bits, so equality of `Binary64` tells zeros of different sign apart and makes every not-a-number
equal to itself. Operations take the exact result as a quotient of natural numbers and round it
once, by `ofRatio`, to the nearest number, a half to the one with even bits.

`order?` compares the numbers that the bits stand for by `key`, which increases with the number.
-/

namespace Criteria

/-- A floating-point number of 64 bits. -/
structure Binary64 where
  bits : UInt64
  deriving DecidableEq, Repr, Inhabited

namespace Binary64

/-! ### Parts of a number -/

/-- The bit that is set in negative numbers. -/
def signBit : Nat := 0x8000000000000000

/-- The leading bit of significands, which is not written down: they have 53 bits. -/
def hiddenBit : Nat := 0x10000000000000

/-- Whether the sign bit is set. -/
def negative (x : Binary64) : Bool := signBit ≤ x.bits.toNat

/-- The bits without the sign. -/
def magnitude (x : Binary64) : Nat := x.bits.toNat % signBit

/-- The bits of infinity. -/
def infinityBits : Nat := 0x7FF0000000000000

/-- Whether the bits are no number. -/
def isNaN (x : Binary64) : Bool := infinityBits < x.magnitude

/-- Whether the number is infinite, with either sign. -/
def isInfinite (x : Binary64) : Bool := x.magnitude == infinityBits

/-- Whether the number is finite. -/
def isFinite (x : Binary64) : Bool := x.magnitude < infinityBits

/-- Whether the number is zero, with either sign. -/
def isZero (x : Binary64) : Bool := x.magnitude == 0

/-- The significand of a finite number as a natural number. -/
def significand (x : Binary64) : Nat :=
  if x.magnitude < hiddenBit then x.magnitude else x.magnitude % hiddenBit + hiddenBit

/-- The exponent of a finite number: its magnitude is `significand * 2 ^ exponent`. -/
def exponent (x : Binary64) : Int :=
  if x.magnitude < hiddenBit then -1074 else (x.magnitude / hiddenBit : Nat) - 1075

/-! ### Making numbers -/

/-- The number with the given sign and the given bits below the sign. -/
def ofMagnitude (negative : Bool) (magnitude : Nat) : Binary64 :=
  ⟨UInt64.ofNat (magnitude + if negative then signBit else 0)⟩

/-- Zero without sign. -/
def zero : Binary64 := ⟨0⟩

/-- Zero with the given sign. -/
def signedZero (negative : Bool) : Binary64 := ofMagnitude negative 0

/-- Infinity with the given sign. -/
def infinity (negative : Bool) : Binary64 := ofMagnitude negative infinityBits

/-- The quiet not-a-number with the sign bit clear. -/
def nan : Binary64 := ⟨0x7FF8000000000000⟩

/-- The not-a-number that stands for the result of an invalid operation. -/
def invalid : Binary64 := ⟨0xFFF8000000000000⟩

/-- The number with its sign bit changed. -/
def neg (x : Binary64) : Binary64 := ofMagnitude (!x.negative) x.magnitude

/-- The number with the given sign bit. -/
def withSign (negative : Bool) (x : Binary64) : Binary64 := ofMagnitude negative x.magnitude

/-- The numerator and denominator of `num / den * 2 ^ e`. -/
def scaleTwo (num den : Nat) (e : Int) : Nat × Nat :=
  if 0 ≤ e then (num * Nat.pow 2 e.toNat, den) else (num, den * Nat.pow 2 (-e).toNat)

/-- The exponent of the highest power of two not above a positive quotient. -/
def floorLog2 (num den : Nat) : Int :=
  let guess : Int := (num.log2 : Int) - den.log2
  let (a, b) := scaleTwo num den (-guess)
  if b ≤ a then guess else guess - 1

/-- The number nearest to a quotient with the given sign, a half to even bits; infinity if the
quotient is too large. The exponent is that of the leading bit, or the least one there is, and a
carry out of the significand runs on into the exponent as it should. -/
def ofRatio (negative : Bool) (num den : Nat) : Binary64 :=
  if num = 0 then signedZero negative
  else
    let e := max (floorLog2 num den - 52) (-1074)
    let (a, b) := scaleTwo num den (-e)
    let bits := (e + 1074).toNat * hiddenBit + Number.roundHalfEven a b
    ofMagnitude negative (min bits infinityBits)

/-- The number nearest to an integer. -/
def ofInt (n : Int) : Binary64 := ofRatio (n < 0) n.natAbs 1

/-- The number nearest to a natural number. -/
def ofNat (n : Nat) : Binary64 := ofRatio false n 1

/-- The number nearest to `m * 10 ^ e` with the given sign. Exponents beyond any finite number are
told from the number of digits, without computing the power. -/
def ofDecimal (negative : Bool) (m : Nat) (e : Int) : Binary64 :=
  if m = 0 then signedZero negative
  else if 400 < e then infinity negative
  else if e + m.log2 < -400 then signedZero negative
  else if 0 ≤ e then ofRatio negative (m * Nat.pow 10 e.toNat) 1
  else ofRatio negative m (Nat.pow 10 (-e).toNat)

/-! ### Order -/

/-- An integer that orders numbers: both zeros have the key 0, and the bits of a positive number
grow with it. -/
def key (x : Binary64) : Int := if x.negative then -x.magnitude else x.magnitude

/-- The order of two numbers; a not-a-number has none. -/
def order? (x y : Binary64) : Option Ordering :=
  if x.isNaN || y.isNaN then none else some (compare x.key y.key)

/-! ### Arithmetic -/

/-- The signed significand of a number that is written with a lower exponent. -/
def signedAt (x : Binary64) (e : Int) : Int :=
  let n : Int := x.significand * Nat.pow 2 (x.exponent - e).toNat
  if x.negative then -n else n

/-- The number nearest to `n * 2 ^ e`; an exact zero has the given sign. -/
def ofScaled (zeroSign : Bool) (n e : Int) : Binary64 :=
  if n = 0 then signedZero zeroSign
  else
    let (a, b) := scaleTwo n.natAbs 1 e
    ofRatio (n < 0) a b

/-- A sum; that of opposite numbers is the positive zero. -/
def add (x y : Binary64) : Binary64 :=
  if x.isNaN then x
  else if y.isNaN then y
  else if x.isInfinite then
    if y.isInfinite && x.negative != y.negative then invalid else x
  else if y.isInfinite then y
  else
    let e := min x.exponent y.exponent
    ofScaled (x.negative && y.negative) (x.signedAt e + y.signedAt e) e

/-- A difference. -/
def sub (x y : Binary64) : Binary64 := if y.isNaN then (if x.isNaN then x else y) else x.add y.neg

/-- A product. -/
def mul (x y : Binary64) : Binary64 :=
  let sign := x.negative != y.negative
  if x.isNaN then x
  else if y.isNaN then y
  else if x.isInfinite || y.isInfinite then
    if x.isZero || y.isZero then invalid else infinity sign
  else
    let (a, b) := scaleTwo (x.significand * y.significand) 1 (x.exponent + y.exponent)
    ofRatio sign a b

/-- A quotient; that of a number by zero is infinite. -/
def div (x y : Binary64) : Binary64 :=
  let sign := x.negative != y.negative
  if x.isNaN then x
  else if y.isNaN then y
  else if x.isInfinite then
    if y.isInfinite then invalid else infinity sign
  else if y.isInfinite then signedZero sign
  else if y.isZero then
    if x.isZero then invalid else infinity sign
  else
    let (a, b) := scaleTwo x.significand y.significand (x.exponent - y.exponent)
    ofRatio sign a b

/-- The remainder of a division whose quotient is truncated; it has the sign of `x`. -/
def rem (x y : Binary64) : Binary64 :=
  if x.isNaN then x
  else if y.isNaN then y
  else if x.isInfinite || y.isZero then invalid
  else if y.isInfinite then x
  else
    let e := min x.exponent y.exponent
    let r := (x.signedAt e).natAbs % (y.signedAt e).natAbs
    let (a, b) := scaleTwo r 1 e
    ofRatio x.negative a b

/-- The number rounded to an integer, a half away from zero. -/
def round (x : Binary64) : Binary64 :=
  if x.isFinite && x.exponent < 0 then
    ofRatio x.negative (Number.roundHalfUp x.significand (Nat.pow 2 (-x.exponent).toNat)) 1
  else x

end Binary64

end Criteria
