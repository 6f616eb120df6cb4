import Criteria.Evaluation
import Criteria.Proofs.Expression.Leaves

/-!
# Operands in evaluation

* `Operator.Fits`: the operands that an operator takes, by the ways in which they are used; with any
  others an operator is malformed (`evaluate_of_not_fits`);
* `SameUnless`: two results that are the same, unless the first is an error of some kind. Operators keep
  it (`Operator.sameUnless_evaluate`), and so do whole terms if the references in them have it
  (`Term.sameUnless_evaluate`);
* `Term.evaluate_congr`: documents matter only through the references in a term, and a document does
  not matter at all to a term that is evaluated without one and misses none.
-/

namespace Criteria

namespace Operator

/-- The operands that an operator takes, by the ways in which they are used. -/
inductive Fits : Operator → List Term → Prop where
  | not (operand : Term) : Fits .not [operand]
  | count (operand : Term) : Fits .count [operand]
  | countDistinct (operand : Term) : Fits .countDistinct [operand]
  | conditional (test yes no : Term) : Fits .conditional [test, yes, no]
  | pair {op : Operator} (h : op.arity = 2) (left right : Term) : Fits op [left, right]

theorem fits_iff {op : Operator} {operands : List Term} :
    Fits op operands ↔ operands.length = op.arity := by
  constructor
  · rintro (_ | _ | _ | _ | ⟨h⟩) <;> first | rfl | exact h.symm
  · intro h
    match operands with
    | [] => cases op <;> cases h
    | [_] => cases op <;> first | constructor | cases h
    | [_, _] => exact .pair h.symm _ _
    | [_, _, _] => cases op <;> first | constructor | cases h
    | _ :: _ :: _ :: _ :: _ => cases op <;> cases h

end Operator

/-! ### Evaluation in two documents -/

/-- Whether two results are the same, unless the first one is one of the given errors. -/
def SameUnless {α : Type} (E : EvalError → Prop) (r r' : Except EvalError α) : Prop :=
  r = r' ∨ ∃ e, E e ∧ r = .error e

section

variable {E : EvalError → Prop} {α β : Type} {r r' : Except EvalError α}

theorem SameUnless.refl (r : Except EvalError α) : SameUnless E r r := .inl rfl

/-- An error is passed on, so that what is done with a result does not matter then. -/
theorem SameUnless.bind {f f' : α → Except EvalError β} (hr : SameUnless E r r')
    (hf : ∀ a, SameUnless E (f a) (f' a)) : SameUnless E (r >>= f) (r' >>= f') := by
  rcases hr with rfl | ⟨e, he, rfl⟩
  · cases r with
    | ok a => exact hf a
    | error e => exact .refl _
  · exact .inr ⟨e, he, rfl⟩

theorem SameUnless.eq (h : SameUnless E r r') (hr : ∀ e, E e → r ≠ .error e) : r = r' :=
  h.resolve_right fun ⟨e, he, heq⟩ => hr e he heq

end

namespace Operator

open Evaluation

variable {document document' : Option Value} {op : Operator} {left right : Term}

/-- An operator that always needs both its operands. -/
theorem evaluate_pair (h : op.arity = 2) (hop : op ∉ [.and, .or, .named]) :
    op.evaluate document [left, right] = (do
      let a ← left.evaluate document
      let b ← right.evaluate document
      applyPair op a b) := by
  cases op
  case and | or | named => exact absurd (by decide) hop
  case not | count | countDistinct | conditional => cases h
  all_goals rfl

/-- With a wrong number of operands nothing is evaluated. -/
theorem evaluate_of_not_fits {operands : List Term} (h : ¬ Fits op operands) :
    op.evaluate document operands = .error (.malformed op operands.length) := by
  rw [fits_iff] at h
  match operands with
  | [] => cases op <;> rfl
  | [_] => cases op <;> first | rfl | exact absurd rfl h
  | [_, _] => cases op <;> first | rfl | exact absurd rfl h
  | [_, _, _] => cases op <;> first | rfl | exact absurd rfl h
  | _ :: _ :: _ :: _ :: _ => cases op <;> rfl

/-- The values of the operands are all that an operator knows of a document. -/
theorem sameUnless_evaluate {E : EvalError → Prop} (operands : List Term)
    (h : ∀ t ∈ operands, SameUnless E (t.evaluate document) (t.evaluate document')) :
    SameUnless E (op.evaluate document operands) (op.evaluate document' operands) := by
  by_cases hfits : Fits op operands
  case neg =>
    rw [evaluate_of_not_fits hfits, evaluate_of_not_fits hfits]
    exact .refl _
  cases hfits with
  | not operand | count operand | countDistinct operand =>
    exact (h operand List.mem_cons_self).bind fun _ => .refl _
  | conditional test yes no =>
    refine (h test (by simp)).bind fun v => (SameUnless.refl _).bind fun c => ?_
    split
    · exact h yes (by simp)
    · exact h no (by simp)
  | pair harity left right =>
    have hl := h left (by simp)
    have hr := h right (by simp)
    cases op
    case and =>
      refine hl.bind fun v => (SameUnless.refl _).bind fun c => ?_
      split
      · exact hr.bind fun w => .refl _
      · exact .refl _
    case or =>
      refine hl.bind fun v => (SameUnless.refl _).bind fun c => ?_
      split
      · exact .refl _
      · exact hr.bind fun w => .refl _
    case named => exact hl
    all_goals
      rw [evaluate_pair harity (by decide), evaluate_pair harity (by decide)]
      exact hl.bind fun a => hr.bind fun b => .refl _

end Operator

namespace Term

open Evaluation

/-- The references in a term are all that it knows of a document. -/
theorem sameUnless_evaluate {E : EvalError → Prop} {document document' : Option Value} (t : Term)
    (h : ∀ path, .reference path ∈ t.leaves →
      SameUnless E (resolve document path) (resolve document' path)) :
    SameUnless E (t.evaluate document) (t.evaluate document') := by
  induction t using Term.induct with
  | literal v | external handle => exact .refl _
  | reference path => exact h path (by simp [leaves])
  | apply op operands ih =>
    rw [evaluate, evaluate]
    refine Operator.sameUnless_evaluate operands fun t ht => ih t ht fun path hpath => h path ?_
    rw [leaves_apply, leavesList_eq]
    exact List.mem_flatMap.2 ⟨t, ht, hpath⟩

/-- Without a document a term misses one, or else it has the same result with any. -/
theorem sameUnless_evaluate_none (t : Term) (document : Option Value) :
    SameUnless (fun e => ∃ path, e = .unboundReference path) (t.evaluate none)
      (t.evaluate document) :=
  t.sameUnless_evaluate fun path _ => .inr ⟨_, ⟨path, rfl⟩, rfl⟩

/-- What has a value without a document has it with any. -/
theorem evaluate_of_none {t : Term} {v : Value} (h : t.evaluate none = .ok v)
    (document : Option Value) : t.evaluate document = .ok v := by
  have hsame := t.sameUnless_evaluate_none document
  rw [h] at hsame
  exact (hsame.eq nofun).symm

/-- **A term knows nothing of a document but what its references are in it.** In two documents in which
every reference in the term has the same result, the term has the same result. What is evaluated
without a document, and does not fail for want of one, has the same result in every document. -/
theorem evaluate_congr (t : Term) :
    (∀ document document' : Option Value,
      (∀ path, .reference path ∈ t.leaves → resolve document path = resolve document' path) →
        t.evaluate document = t.evaluate document') ∧
    ((∀ path, t.evaluate none ≠ .error (.unboundReference path)) →
      ∀ document, t.evaluate (some document) = t.evaluate none) := by
  refine ⟨fun document document' h => ?_, fun h document => ?_⟩
  · have hsame := t.sameUnless_evaluate (E := fun _ => False) fun path hpath => .inl (h path hpath)
    exact hsame.eq nofun
  · have hsame := t.sameUnless_evaluate_none (some document)
    refine (hsame.eq ?_).symm
    rintro e ⟨path, rfl⟩
    exact h path

/-- Two documents that differ beside the field which a term compares and then walks into, and a term
that divides by zero in front of a reference. -/
theorem evaluate_congr_guarded :
    let a : FieldPath := ⟨[], "a"⟩
    let walks := apply .or [apply .equals [.reference a, .literal (.integer 2)],
      .reference ⟨["a"], "b"⟩]
    let divides := apply .and [apply .divide [.literal (.integer 1), .literal .null], .reference a]
    let narrow := Value.object [("a", .integer 1)]
    let wide := Value.object [("a", .integer 1), ("c", .integer 3)]
    narrow ≠ wide ∧ walks.evaluate (some narrow) = walks.evaluate (some wide) ∧
      divides.evaluate (some wide) = .error (.divisionByZero .divide) := by
  intro a walks divides narrow wide
  refine ⟨by decide, (evaluate_congr walks).1 _ _ fun path hpath => ?_, ?_⟩
  · have hpath : path = a ∨ path = ⟨["a"], "b"⟩ := by
      simpa [walks, leaves, leavesList] using hpath
    rcases hpath with rfl | rfl <;> decide
  · have hdivides : divides.evaluate none = .error (.divisionByZero .divide) := by decide
    refine ((evaluate_congr divides).2 (fun path => ?_) wide).trans hdivides
    rw [hdivides]
    exact nofun

end Term

end Criteria
