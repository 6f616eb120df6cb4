import Criteria.Text.Basic

/-!
# Globally unique identifiers

An identifier of 128 bits, written as 32 hexadecimal digits in groups of 8, 4, 4, 4 and 12.
-/

namespace Criteria

/-- An identifier of 128 bits. -/
structure Guid where
  bits : BitVec 128
  deriving DecidableEq, Repr, Inhabited

namespace Guid

/-- The hexadecimal digit with the given value, in lower case. -/
def digit (n : Nat) : Char :=
  if n < 10 then Char.ofNat ('0'.toNat + n) else Char.ofNat ('a'.toNat + (n - 10))

/-- The lowest `count` hexadecimal digits of a number, the highest of them first. -/
def digits : Nat → Nat → List Char
  | 0, _ => []
  | count + 1, n => digit (n / Nat.pow 16 count % 16) :: digits count n

/-- Writes an identifier in its five groups. -/
def render (g : Guid) : String :=
  let n := g.bits.toNat
  String.ofList (digits 8 (n / Nat.pow 16 24) ++ '-' :: digits 4 (n / Nat.pow 16 20) ++
    '-' :: digits 4 (n / Nat.pow 16 16) ++ '-' :: digits 4 (n / Nat.pow 16 12) ++
    '-' :: digits 12 n)

/-- The identifier with the given hexadecimal digits; hyphens are left out. -/
def ofDigits? (cs : List Char) : Option Guid :=
  (Text.hexNumber? (cs.filter (· != '-'))).map fun n => ⟨BitVec.ofNat 128 n⟩

end Guid

end Criteria
