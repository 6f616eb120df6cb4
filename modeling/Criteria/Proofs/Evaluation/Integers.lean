import Criteria.Proofs.Evaluation.Operands
import Criteria.Proofs.Number.Decimals

/-!
# Integral arithmetic in evaluation

* `Value.whole?`: the integer of an operand, with zero for null;
* `ValueType.Holds`, `ValueType.ofWhole`: the integers of a type and the values that stand for them
  (`type_ofWhole`, `whole?_ofWhole`);
* `Operator.evaluate_integral`: integral arithmetic is exact, and overflows just where the exact
  result is not among the integers of the result type.
-/

namespace Criteria

namespace Value

/-- The integer of an operand without a double; null counts as zero. -/
def whole? : Value → Option Int
  | null => some 0
  | integer n => some n.toInt
  | long n => some n.toInt
  | _ => none

/-- The type of the first of two operands that is not null, integer if both are. -/
def integralType : Value → Value → ValueType
  | null, null => .integer
  | null, b => b.type
  | a, _ => a.type

theorem natAbs_le_of_whole? {v : Value} {n : Int} (h : v.whole? = some n) :
    n.natAbs ≤ 2 ^ 63 := by
  cases v with
  | null =>
    cases h
    decide
  | integer m =>
    cases h
    have hlow := m.le_toInt
    have hhigh := m.toInt_lt
    omega
  | long m =>
    cases h
    have hlow := m.le_toInt
    have hhigh := m.toInt_lt
    omega
  | _ => cases h

theorem asInt_of_whole? {v : Value} {n : Int} (h : v.whole? = some n) : Evaluation.asInt v = n := by
  cases v <;> cases h <;> rfl

end Value

namespace ValueType

/-- The integers of a type: those of 64 bits for long, else those of 32. -/
def Holds : ValueType → Int → Prop
  | long, n => -2 ^ 63 ≤ n ∧ n < 2 ^ 63
  | _, n => -2 ^ 31 ≤ n ∧ n < 2 ^ 31

instance (type : ValueType) (n : Int) : Decidable (type.Holds n) := by
  cases type <;> unfold Holds <;> infer_instance

/-- The value of an integer in a type. -/
def ofWhole : ValueType → Int → Value
  | long, n => .long (.ofInt n)
  | _, n => .integer (.ofInt n)

theorem type_ofWhole {type : ValueType} (h : type ∈ [integer, long]) (n : Int) :
    (type.ofWhole n).type = type := by
  cases type <;> first | rfl | exact absurd h (by decide)

theorem whole?_ofWhole {type : ValueType} {n : Int} (h : type.Holds n) :
    (type.ofWhole n).whole? = some n := by
  cases type
  case long => exact congrArg some (Int64.toInt_ofInt_of_le h.1 h.2)
  all_goals exact congrArg some (Int32.toInt_ofInt_of_le h.1 h.2)

end ValueType

namespace Evaluation

variable {op : Operator} {f : Arithmetic} {a b : Value} {m n : Int}

theorem resultType_of_whole? (ha : a.whole? = some m) (hb : b.whole? = some n) :
    resultType op a b = .ok (a.integralType b) ∧ a.integralType b ≠ .double := by
  cases a <;> cases ha <;> cases b <;> cases hb <;> exact ⟨rfl, nofun⟩

/-- The conversion to the type of the result. -/
theorem converted_eq (type : ValueType) (r : Int) :
    (if type = .long then (Literal.toLong? r).map Value.long
      else (Literal.toInteger? r).map Value.integer) =
      if type.Holds r then some (type.ofWhole r) else none := by
  have hlong : Int64.minValue.toInt = -2 ^ 63 ∧ Int64.maxValue.toInt = 2 ^ 63 - 1 := ⟨rfl, rfl⟩
  have hinteger : Int32.minValue.toInt = -2 ^ 31 ∧ Int32.maxValue.toInt = 2 ^ 31 - 1 := ⟨rfl, rfl⟩
  split
  case isTrue h =>
    subst h
    simp only [Literal.toLong?, hlong, Int.le_sub_one_iff, ValueType.Holds, ValueType.ofWhole,
      apply_ite (Option.map Value.long), Option.map_some, Option.map_none]
  case isFalse h =>
    simp only [Literal.toInteger?, hinteger, Int.le_sub_one_iff,
      apply_ite (Option.map Value.integer), Option.map_some, Option.map_none]
    cases type
    case long => exact absurd rfl h
    all_goals simp only [ValueType.Holds, ValueType.ofWhole]

/-- A type holds no integer beyond the mantissa of a decimal. -/
theorem lt_bound_of_holds {type : ValueType} (h : type.Holds n) : n.natAbs < Number.Scaled.bound := by
  rw [Number.Scaled.bound_eq]
  cases type <;> simp only [ValueType.Holds] at h <;> omega

theorem integral_eq (op : Operator) (f : Arithmetic) (type : ValueType)
    (hm : m.natAbs ≤ 2 ^ 63) (hn : n.natAbs ≤ 2 ^ 63) :
    integral op f type m n =
      if f.divides ∧ n = 0 then .error (.divisionByZero op)
      else if type.Holds (f.exact m n) then .ok (type.ofWhole (f.exact m n))
      else .error (.overflow op) := by
  unfold integral
  simp only [Bool.and_eq_true, beq_iff_eq]
  split
  case isTrue => rfl
  case isFalse h =>
    rw [f.onInts?_eq hm hn (by tauto)]
    generalize f.exact m n = r
    by_cases hholds : type.Holds r
    · simp only [if_pos (lt_bound_of_holds hholds), Option.bind_eq_bind, Option.bind_some,
        converted_eq, if_pos hholds]
    · by_cases hfits : r.natAbs < Number.Scaled.bound
      · simp only [if_pos hfits, Option.bind_eq_bind, Option.bind_some, converted_eq,
          if_neg hholds]
      · simp only [if_neg hfits, Option.bind_eq_bind, Option.bind_none, if_neg hholds]

theorem applyPair_of_arithmetic? (h : op.arithmetic? = some f) :
    applyPair op a b = calculate op f a b := by
  cases op <;> cases h <;> rfl

/-- Integral arithmetic: for operands that are integers of 32 or 64 bits or null, the exact result in
the type of the first operand that is not null. It overflows just where that type does not hold the
result, and fails otherwise only in a division by zero. -/
theorem evaluate_integral {document : Option Value} {left right : Term}
    (hop : op.arithmetic? = some f) (hleft : left.evaluate document = .ok a)
    (hright : right.evaluate document = .ok b) (ha : a.whole? = some m) (hb : b.whole? = some n) :
    (Term.apply op [left, right]).evaluate document =
      if f.divides ∧ n = 0 then .error (.divisionByZero op)
      else if (a.integralType b).Holds (f.exact m n) then
        .ok ((a.integralType b).ofWhole (f.exact m n))
      else .error (.overflow op) := by
  have hpair : op.arity = 2 ∧ op ∉ [.and, .or, .named] := by
    cases op <;> cases hop <;> exact ⟨rfl, by decide⟩
  obtain ⟨htype, hnot⟩ : resultType op a b = .ok (a.integralType b) ∧ a.integralType b ≠ .double :=
    resultType_of_whole? ha hb
  have hcalculate : calculate op f a b = integral op f (a.integralType b) m n := by
    rw [calculate, htype, Value.asInt_of_whole? ha, Value.asInt_of_whole? hb]
    exact if_neg hnot
  calc (Term.apply op [left, right]).evaluate document
      = (do
          let x ← left.evaluate document
          let y ← right.evaluate document
          applyPair op x y) := Operator.evaluate_pair hpair.1 hpair.2
    _ = applyPair op a b := by
      rw [hleft, hright]
      rfl
    _ = integral op f (a.integralType b) m n := by
      rw [applyPair_of_arithmetic? hop, hcalculate]
    _ = _ := integral_eq op f _ (Value.natAbs_le_of_whole? ha) (Value.natAbs_le_of_whole? hb)

/-- The least long divided by -1 overflows, and a quotient is truncated toward zero. -/
theorem evaluate_integral_quotients :
    (Term.apply .divide [.literal (.long Int64.minValue), .literal (.integer (-1))]).evaluate none =
        .error (.overflow .divide) ∧
      (Term.apply .divide [.literal (.integer (-7)), .literal (.long 2)]).evaluate none =
        .ok (.integer (-3)) :=
  ⟨(evaluate_integral rfl rfl rfl rfl rfl).trans (by decide),
    (evaluate_integral rfl rfl rfl rfl rfl).trans (by decide)⟩

end Evaluation

end Criteria
