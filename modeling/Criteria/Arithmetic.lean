import Criteria.Number.Scaled

/-!
# Arithmetic and comparisons

The five arithmetic operations on integers and on binary numbers, and the four comparisons. All go
through decimals of 96 bits. On integers the result is truncated toward zero; binary numbers for which
the operands or the result are no such decimals are computed directly.
-/

namespace Criteria

/-- The arithmetic operations. -/
inductive Arithmetic where
  | add
  | subtract
  | multiply
  | divide
  | modulo
  deriving DecidableEq, Repr

namespace Arithmetic

/-- Whether the operation divides by its second operand. -/
def divides : Arithmetic → Bool
  | divide | modulo => true
  | _ => false

/-- The result on decimals, if there is one. -/
def onScaled? : Arithmetic → Number.Scaled → Number.Scaled → Option Number.Scaled
  | add => Number.Scaled.add?
  | subtract => Number.Scaled.sub?
  | multiply => Number.Scaled.mul?
  | divide => Number.Scaled.div?
  | modulo => Number.Scaled.rem?

/-- The result on integers by way of decimals, truncated toward zero. -/
def onInts? (op : Arithmetic) (a b : Int) : Option Int :=
  (op.onScaled? (.ofInt a) (.ofInt b)).map (·.truncate)

/-- The result on binary numbers without a detour. -/
def onBinary : Arithmetic → Binary64 → Binary64 → Binary64
  | add => .add
  | subtract => .sub
  | multiply => .mul
  | divide => .div
  | modulo => .rem

/-- The result by way of decimals, if both operands and the result are decimals of 96 bits. -/
def byDecimals? (op : Arithmetic) (x y : Binary64) : Option Binary64 := do
  let a ← Number.Scaled.ofBinary? x
  let b ← Number.Scaled.ofBinary? y
  return (← op.onScaled? a b).toBinary

/-- The result on doubles. -/
def onDoubles (op : Arithmetic) (x y : Binary64) : Binary64 :=
  (op.byDecimals? x y).getD (op.onBinary x y)

end Arithmetic

/-- The comparisons by order. -/
inductive Comparison where
  | greater
  | greaterOrEqual
  | less
  | lessOrEqual
  deriving DecidableEq, Repr

/-- Whether an order satisfies a comparison. -/
def Comparison.holds : Comparison → Ordering → Bool
  | greater, o => o == .gt
  | greaterOrEqual, o => o != .lt
  | less, o => o == .lt
  | lessOrEqual, o => o != .gt

end Criteria
