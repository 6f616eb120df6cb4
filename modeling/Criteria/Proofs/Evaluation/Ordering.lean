import Criteria.Proofs.Evaluation.Operands
import Criteria.Proofs.Fallible

/-!
# Comparisons by order

The order of two values is turned round when the values are (`Value.order?_swap`), and so is the
order in which comparisons take null for equal to everything (`Value.ordered?_swap`). A comparison is
told by that order alone (`Term.evaluate_comparison_iff`), so that the four comparisons determine each
other: `Comparison.negated` is the one that holds where another does not, `Comparison.flipped` the one
that holds of the sides in turn.
-/

namespace Criteria

/-! ### Comparisons of an order -/

namespace Comparison

/-- The comparison that holds just where another does not. -/
def negated : Comparison → Comparison
  | greater => lessOrEqual
  | greaterOrEqual => less
  | less => greaterOrEqual
  | lessOrEqual => greater

/-- The comparison with its sides exchanged. -/
def flipped : Comparison → Comparison
  | greater => less
  | greaterOrEqual => lessOrEqual
  | less => greater
  | lessOrEqual => greaterOrEqual

theorem holds_negated (c : Comparison) (o : Ordering) : c.negated.holds o = !c.holds o := by
  cases c <;> cases o <;> rfl

@[simp] theorem flipped_flipped (c : Comparison) : c.flipped.flipped = c := by cases c <;> rfl

theorem holds_flipped (c : Comparison) (o : Ordering) : c.flipped.holds o.swap = c.holds o := by
  cases c <;> cases o <;> rfl

end Comparison

/-! ### Orders in turn -/

/-- The numbers are told apart by their keys, and one that is not a number has no order either way. -/
theorem Binary64.order?_swap (x y : Binary64) : y.order? x = (x.order? y).map Ordering.swap := by
  unfold order?
  rw [Bool.or_comm]
  split
  · rfl
  · exact congrArg some Std.OrientedCmp.eq_swap

theorem Date.order_swap (a b : Date) : b.order a = (a.order b).swap := by
  unfold order
  rw [Ordering.swap_then, Ordering.swap_then, ← Std.OrientedCmp.eq_swap (a := b.year),
    ← Std.OrientedCmp.eq_swap (a := b.month), ← Std.OrientedCmp.eq_swap (a := b.day)]

theorem DateTime.order_swap (a b : DateTime) : b.order a = (a.order b).swap := by
  unfold order
  rw [Ordering.swap_then, Ordering.swap_then, Ordering.swap_then, Ordering.swap_then,
    ← Date.order_swap, ← Std.OrientedCmp.eq_swap (a := b.hour),
    ← Std.OrientedCmp.eq_swap (a := b.minute), ← Std.OrientedCmp.eq_swap (a := b.second),
    ← Std.OrientedCmp.eq_swap (a := b.nanos)]

namespace Value

/-- **The order of values is turned round with the values**, across widths too, and values that
cannot be compared cannot be compared in turn. -/
theorem order?_swap (a b : Value) : b.order? a = (a.order? b).map Ordering.swap := by
  cases a with
  | integer m | long m | string s | boolean x | guid g =>
    cases b <;>
      first
        | rfl
        | exact congrArg some Std.OrientedCmp.eq_swap
        | exact Binary64.order?_swap _ _
  | double x => cases b <;> first | rfl | exact Binary64.order?_swap _ _
  | date d => cases b <;> first | rfl | exact congrArg some (Date.order_swap _ _)
  | dateTime d => cases b <;> first | rfl | exact congrArg some (DateTime.order_swap _ _)
  | null | list | object => cases b <;> rfl

/-- The order of two operands of a comparison; null is equal to everything. -/
def ordered? (a b : Value) : Option Ordering :=
  if a.isNull || b.isNull then some .eq else a.order? b

theorem ordered?_swap (a b : Value) : b.ordered? a = (a.ordered? b).map Ordering.swap := by
  unfold ordered?
  rw [Bool.or_comm]
  split
  · rfl
  · exact order?_swap a b

end Value

/-! ### Comparisons of terms -/

namespace Evaluation

theorem applyPair_of_comparison? {op : Operator} {c : Comparison} (h : op.comparison? = some c)
    (a b : Value) : applyPair op a b = compareValues op c a b := by
  cases op <;> cases h <;> rfl

theorem compareValues_eq_ok_iff {op : Operator} {c : Comparison} {a b v : Value} :
    compareValues op c a b = .ok v ↔ ∃ o, a.ordered? b = some o ∧ v = .boolean (c.holds o) := by
  unfold compareValues Value.ordered?
  split
  · exact ⟨fun h => ⟨_, rfl, (Except.ok.inj h).symm⟩, fun ⟨_, ho, hv⟩ => by cases ho; rw [hv]⟩
  · cases a.order? b with
    | none => exact ⟨nofun, nofun⟩
    | some o =>
      exact ⟨fun h => ⟨o, rfl, (Except.ok.inj h).symm⟩, fun ⟨_, ho, hv⟩ => by cases ho; rw [hv]⟩

end Evaluation

namespace Term

open Evaluation

variable {document : Option Value} {op op' : Operator} {c : Comparison} {l r : Term}

/-- A comparison has a value if both operands have one and these have an order. -/
theorem evaluate_comparison_iff (h : op.comparison? = some c) {v : Value} :
    (apply op [l, r]).evaluate document = .ok v ↔
      ∃ a b, l.evaluate document = .ok a ∧ r.evaluate document = .ok b ∧
        ∃ o, a.ordered? b = some o ∧ v = .boolean (c.holds o) := by
  have hpair : op.arity = 2 ∧ op ∉ [.and, .or, .named] := by
    cases op <;> cases h <;> exact ⟨rfl, by decide⟩
  rw [Term.evaluate, Operator.evaluate_pair hpair.1 hpair.2, bind_eq_ok_iff]
  simp only [bind_eq_ok_iff, applyPair_of_comparison? h, compareValues_eq_ok_iff]
  constructor
  · rintro ⟨a, ha, b, hb, ho⟩
    exact ⟨a, b, ha, hb, ho⟩
  · rintro ⟨a, b, ha, hb, ho⟩
    exact ⟨a, ha, b, hb, ho⟩

/-- The opposite comparison of the same operands. -/
theorem evaluate_negated_iff (h : op.comparison? = some c) (h' : op'.comparison? = some c.negated)
    (x : Bool) :
    (apply op [l, r]).evaluate document = .ok (.boolean x) ↔
      (apply op' [l, r]).evaluate document = .ok (.boolean !x) := by
  rw [evaluate_comparison_iff h, evaluate_comparison_iff h']
  simp only [Comparison.holds_negated, Value.boolean.injEq, Bool.not_inj_iff]

/-- The comparison of the operands in turn. Both have to be evaluated either way. -/
theorem evaluate_flipped (h : op.comparison? = some c) (h' : op'.comparison? = some c.flipped)
    {x : Bool} (hx : (apply op [l, r]).evaluate document = .ok (.boolean x)) :
    (apply op' [r, l]).evaluate document = .ok (.boolean x) := by
  obtain ⟨a, b, ha, hb, o, ho, hx⟩ := (evaluate_comparison_iff h).1 hx
  refine (evaluate_comparison_iff h').2 ⟨b, a, hb, ha, o.swap, ?_, ?_⟩
  · rw [Value.ordered?_swap, ho]
    rfl
  · rw [hx, Comparison.holds_flipped]

theorem evaluate_flipped_iff (h : op.comparison? = some c) (h' : op'.comparison? = some c.flipped)
    (x : Bool) :
    (apply op [l, r]).evaluate document = .ok (.boolean x) ↔
      (apply op' [r, l]).evaluate document = .ok (.boolean x) :=
  ⟨evaluate_flipped h h', evaluate_flipped h' (by rw [Comparison.flipped_flipped, h])⟩

/-- **The four comparisons are one.** For all operands in every document or none: `<` and `>=` have
opposite values, and so have `>` and `<=`; `<` has the value of `>` with the operands exchanged, and
`<=` that of `>=`. -/
theorem evaluate_comparisons (document : Option Value) (l r : Term) (x : Bool) :
    ((apply .less [l, r]).evaluate document = .ok (.boolean x) ↔
      (apply .greaterOrEqual [l, r]).evaluate document = .ok (.boolean !x)) ∧
    ((apply .greater [l, r]).evaluate document = .ok (.boolean x) ↔
      (apply .lessOrEqual [l, r]).evaluate document = .ok (.boolean !x)) ∧
    ((apply .less [l, r]).evaluate document = .ok (.boolean x) ↔
      (apply .greater [r, l]).evaluate document = .ok (.boolean x)) ∧
    ((apply .lessOrEqual [l, r]).evaluate document = .ok (.boolean x) ↔
      (apply .greaterOrEqual [r, l]).evaluate document = .ok (.boolean x)) :=
  ⟨evaluate_negated_iff rfl rfl x, evaluate_negated_iff rfl rfl x, evaluate_flipped_iff rfl rfl x,
    evaluate_flipped_iff rfl rfl x⟩

end Term

end Criteria
