import Criteria.Proofs.Evaluation.Operands

/-!
# How evaluation fails

`FailsOnly` says with which errors a computation may fail; it is kept by what comes behind
(`FailsOnly.bind`). A tree in which every operator has as many operands as it takes is never found
malformed (`Term.formed_evaluate`): what operators on values complain of is types, division by zero
and overflow.
-/

namespace Criteria

/-- Whether a computation succeeds or fails with one of the given errors. -/
def FailsOnly {ε α : Type} (E : ε → Prop) (r : Except ε α) : Prop := ∀ e, r = .error e → E e

namespace FailsOnly

variable {ε α β : Type} {E : ε → Prop}

theorem ok (a : α) : FailsOnly E (.ok a) := nofun

theorem error {e : ε} (h : E e) : FailsOnly E (.error e : Except ε α) := by
  rintro _ ⟨⟩
  exact h

theorem imp {E' : ε → Prop} {r : Except ε α} (h : FailsOnly E r) (himp : ∀ e, E e → E' e) :
    FailsOnly E' r := fun e he => himp e (h e he)

theorem bind {r : Except ε α} {f : α → Except ε β} (hr : FailsOnly E r)
    (hf : ∀ a, FailsOnly E (f a)) : FailsOnly E (r >>= f) := by
  cases r with
  | ok a => exact hf a
  | error e => exact .error (hr e rfl)

end FailsOnly

/-- Whether an error is that of an operator with a wrong number of operands. -/
def EvalError.IsMalformed : EvalError → Prop
  | malformed _ _ => True
  | _ => False

namespace Evaluation

variable {op : Operator}

/-- Whether a computation does not find an operator malformed. -/
abbrev Formed {α : Type} (r : Except EvalError α) : Prop := FailsOnly (fun e => ¬ e.IsMalformed) r

theorem formed_descend (path : FieldPath) (segments : List String) (v : Value) :
    Formed (descend path v segments) := by
  fun_induction descend path v segments with
  | case1 v => exact .ok v
  | case2 => exact .ok _
  | case3 fields segment rest v hv ih => exact ih
  | case4 => exact .ok _
  | case5 => exact .error id

theorem formed_resolve (document : Option Value) (path : FieldPath) :
    Formed (resolve document path) := by
  cases document with
  | none => exact .error id
  | some v => exact formed_descend path path.segments v

theorem formed_truth (v : Value) : Formed (truth op v) := by
  cases v <;> first | exact .ok _ | exact .error id

theorem formed_condition (v : Value) : Formed (condition op v) := by
  cases v <;> first | exact .ok _ | exact .error id

theorem formed_compareValues (c : Comparison) (a b : Value) : Formed (compareValues op c a b) := by
  unfold compareValues
  split
  · exact .ok _
  · split
    · exact .ok _
    · exact .error id

theorem formed_calculate (f : Arithmetic) (a b : Value) : Formed (calculate op f a b) := by
  have htype : Formed (resultType op a b) := by
    unfold resultType
    split
    · exact .error id
    · split_ifs <;> exact .ok _
  refine htype.bind fun type => ?_
  split
  · exact .ok _
  · unfold integral
    split
    · exact .error id
    · dsimp only
      split
      · exact .ok _
      · exact .error id

/-- An operator of two operands knows what to do with them. -/
theorem formed_applyPair (h : op.arity = 2) (hop : op ∉ [.and, .or, .named]) (a b : Value) :
    Formed (applyPair op a b) := by
  cases op
  case not | count | countDistinct | conditional => cases h
  case and | or | named => exact absurd (by decide) hop
  case equals | notEquals | isIn | concat | contains | startsWith | endsWith => exact .ok _
  case greater | greaterOrEqual | less | lessOrEqual => exact formed_compareValues _ a b
  case add | subtract | multiply | divide | modulo => exact formed_calculate _ a b

end Evaluation

open Evaluation

variable {document : Option Value}

/-- An operator with its operands is well-formed if these are. -/
theorem Operator.formed_evaluate {op : Operator} {operands : List Term} (hfits : op.Fits operands)
    (h : ∀ t ∈ operands, Formed (t.evaluate document)) : Formed (op.evaluate document operands) := by
  cases hfits with
  | not operand =>
    exact (h operand (by simp)).bind fun v => (formed_truth v).bind fun _ => .ok _
  | count operand | countDistinct operand => exact (h operand (by simp)).bind fun v => .ok _
  | conditional test yes no =>
    refine (h test (by simp)).bind fun v => (formed_condition v).bind fun c => ?_
    split
    · exact h yes (by simp)
    · exact h no (by simp)
  | pair harity left right =>
    have hl := h left (by simp)
    have hr := h right (by simp)
    have htruth (op : Operator) :
        Formed (do return Value.boolean (← truth op (← right.evaluate document))) :=
      hr.bind fun v => (formed_truth v).bind fun _ => .ok _
    cases op
    case and | or =>
      refine hl.bind fun v => (formed_truth v).bind fun c => ?_
      split <;> first | exact htruth _ | exact .ok _
    case named => exact hl
    all_goals
      rw [evaluate_pair harity (by decide)]
      exact hl.bind fun a => hr.bind fun b => formed_applyPair harity (by decide) a b

/-- **A complete tree is never found malformed.** -/
theorem Term.formed_evaluate {t : Term} (ht : t.Complete) : Formed (t.evaluate document) := by
  induction t using Term.induct with
  | literal v => exact .ok v
  | reference path => exact formed_resolve document path
  | external handle => exact .error id
  | apply op operands ih =>
    obtain ⟨hlength, hoperands⟩ := ht
    rw [Term.evaluate]
    exact Operator.formed_evaluate (Operator.fits_iff.2 hlength) fun t ht =>
      ih t ht (completeList_iff.1 hoperands t ht)

end Criteria
