import Criteria.Proofs.Expression.Phrase
import Mathlib.Algebra.Ring.Int.Defs
import Mathlib.Tactic.SplitIfs

/-!
# Folding sequences in postfix order

`Postfix.fold` undoes `Phrase.postorder`: the postorder of a phrase puts exactly the tree of that
phrase on the stack of operands (`Phrase.foldlM_push_postorder`). In any sequence that can be folded
at all, operands and operators balance: an operand adds one entry to the stack and an operator
removes as many as it has operands but one (`length_of_foldlM_push`).
-/

namespace Criteria

namespace Postfix

/-- An operator with as many operands on top of the stack as it takes. -/
theorem push_operator {op : Operator} (operands stack : List Term)
    (h : operands.length = op.arity) :
    push (operands.reverse ++ stack) (.operator op) = .ok (.apply op operands :: stack) := by
  have hlen : ¬ (operands.reverse ++ stack).length < op.arity := by simp [h]
  have htake : (operands.reverse ++ stack).take op.arity = operands.reverse := by
    rw [← h, ← List.length_reverse]
    exact List.take_left
  have hdrop : (operands.reverse ++ stack).drop op.arity = stack := by
    rw [← h, ← List.length_reverse]
    exact List.drop_left
  rw [push, if_neg hlen, htake, hdrop, List.reverse_reverse, Operation.of?_eq_ok h]
  rfl

theorem push_value {t : Token TokenKind} {v : Term} (h : resolve t = .ok v) (stack : List Term) :
    push stack (.value t) = .ok (v :: stack) := by
  rw [push, h]
  rfl

/-- Putting an element on the stack resolves an operand, or takes the operands of an operator off the
stack and puts back what they make up. -/
theorem push_cases {i : Item} {stack stack' : List Term} (h : push stack i = .ok stack') :
    (∃ t v, i = .value t ∧ resolve t = .ok v ∧ stack' = v :: stack) ∨
      ∃ op operands below, i = .operator op ∧ operands.length = op.arity ∧
        stack = operands.reverse ++ below ∧ stack' = .apply op operands :: below := by
  cases i with
  | value t =>
    obtain ⟨v, hv, hs⟩ := bind_eq_ok_iff.1 h
    cases hs
    exact .inl ⟨t, v, rfl, hv, rfl⟩
  | operator op =>
    rw [push] at h
    split_ifs at h with hlt
    · cases h
    · have hlen : (stack.take op.arity).reverse.length = op.arity := by simp; omega
      rw [Operation.of?_eq_ok hlen] at h
      cases h
      exact .inr ⟨op, _, stack.drop op.arity, rfl, hlen, by simp, rfl⟩

/-- It fails for an operand that stands for nothing and for an operator without its operands. -/
theorem push_error_cases {i : Item} {stack : List Term} {e : SyntaxError}
    (h : push stack i = .error e) :
    (∃ t, i = .value t ∧ resolve t = .error e) ∨
      ∃ op, i = .operator op ∧ stack.length < op.arity ∧ e = .missingOperand op.name := by
  cases i with
  | value t =>
    obtain h | ⟨v, -, ⟨⟩⟩ := bind_eq_error_iff.1 h
    exact .inl ⟨t, rfl, h⟩
  | operator op =>
    rw [push] at h
    split_ifs at h with hlt
    · cases h
      exact .inr ⟨op, rfl, hlt, rfl⟩
    · have hlen : (stack.take op.arity).reverse.length = op.arity := by simp; omega
      rw [Operation.of?_eq_ok hlen] at h
      cases h

/-- How many entries an element adds to the stack of operands. -/
def Item.weight : Item → Int
  | .value _ => 1
  | .operator op => 1 - op.arity

/-- How many entries a sequence adds to the stack of operands. -/
def weight (sequence : List Item) : Int := (sequence.map Item.weight).sum

@[simp] theorem weight_nil : weight [] = 0 := rfl

@[simp] theorem weight_cons (i : Item) (sequence : List Item) :
    weight (i :: sequence) = i.weight + weight sequence := by simp [weight]

@[simp] theorem weight_append (a b : List Item) : weight (a ++ b) = weight a + weight b := by
  simp [weight]

theorem length_of_push {stack stack' : List Term} {i : Item} (h : push stack i = .ok stack') :
    (stack'.length : Int) = stack.length + i.weight := by
  obtain ⟨t, v, rfl, -, rfl⟩ | ⟨op, operands, below, rfl, hlen, rfl, rfl⟩ := push_cases h
  · simp [Item.weight]
  · simp [Item.weight, hlen]
    omega

/-- Folding adds the weight of a sequence to the height of the stack. -/
theorem length_of_foldlM_push {sequence : List Item} {stack stack' : List Term}
    (h : sequence.foldlM push stack = .ok stack') :
    (stack'.length : Int) = stack.length + weight sequence := by
  induction sequence generalizing stack with
  | nil => cases h; simp
  | cons i sequence ih =>
    rw [List.foldlM_cons] at h
    obtain ⟨mid, hp, h⟩ := bind_eq_ok_iff.1 h
    rw [ih h, length_of_push hp, weight_cons]
    omega

/-- The operands of a sequence that can be folded stand for terms. -/
theorem resolve_of_foldlM_push {sequence : List Item} {stack stack' : List Term}
    (h : sequence.foldlM push stack = .ok stack') {t : Token TokenKind}
    (ht : Item.value t ∈ sequence) : ∃ v, resolve t = .ok v := by
  induction sequence generalizing stack with
  | nil => cases ht
  | cons i sequence ih =>
    rw [List.foldlM_cons] at h
    obtain ⟨mid, hp, h⟩ := bind_eq_ok_iff.1 h
    rcases List.mem_cons.1 ht with rfl | ht
    · obtain ⟨_, v, ⟨⟩, hv, -⟩ | ⟨op, _, _, ⟨⟩, -⟩ := push_cases hp
      exact ⟨v, hv⟩
    · exact ih h ht

/-- A fold that succeeds leaves one term, which is an operation. -/
theorem fold_eq_ok_iff {sequence : List Item} {o : Operation} :
    fold sequence = .ok o ↔ sequence.foldlM push [] = .ok [o.toTerm] := by
  unfold fold
  cases hf : sequence.foldlM push [] with
  | error e =>
    constructor
    · intro h; cases h
    · intro h; cases h
  | ok stack =>
    change single stack = .ok o ↔ _
    rw [Except.ok.injEq]
    constructor
    · intro h
      unfold single at h
      split at h
      · cases h
      · cases h; rfl
      · cases h
      · cases h
    · rintro rfl
      rfl

end Postfix

open Postfix

section

variable {d : Dialect}

mutual

/-- Folding the postorder of a phrase puts its tree on the stack. -/
theorem Phrase.foldlM_push_postorder (hd : d.ArityMatched) :
    ∀ (e : Phrase) (stack : List Term), e.WellFormed d →
    e.postorder.foldlM push stack = .ok (e.term :: stack)
  | .value t v, stack, hw => by
    rw [Phrase.postorder, List.foldlM_cons, push_value hw.2]
    rfl
  | .before t op e, stack, hw => by
    have h := push_operator [e.term] stack (hd.unary hw.1).symm
    rw [Phrase.postorder, List.foldlM_append, Phrase.foldlM_push_postorder hd e stack hw.2]
    change [Item.operator op].foldlM push (e.term :: stack) = _
    rw [List.foldlM_cons, show e.term :: stack = [e.term].reverse ++ stack from rfl, h]
    rfl
  | .between l t op r, stack, ⟨hl, ht, hr⟩ => by
    have h := push_operator [l.term, r.term] stack (hd.binary ht).symm
    rw [Phrase.postorder, List.foldlM_append, List.foldlM_append,
      Phrase.foldlM_push_postorder hd l stack hl]
    change (r.postorder.foldlM push (l.term :: stack) >>= _) = _
    rw [Phrase.foldlM_push_postorder hd r _ hr]
    change [Item.operator op].foldlM push (r.term :: l.term :: stack) = _
    rw [List.foldlM_cons,
      show r.term :: l.term :: stack = [l.term, r.term].reverse ++ stack from rfl, h]
    rfl
  | .call m op o as c, stack, ⟨_, _, has, hc, _⟩ => by
    have h := push_operator as.terms stack (as.length_terms.trans hc)
    rw [Phrase.postorder, List.foldlM_append, Arguments.foldlM_push_postorder hd as stack has]
    change [Item.operator op].foldlM push (as.terms.reverse ++ stack) = _
    rw [List.foldlM_cons, h]
    rfl
  | .bracketed o e c, stack, hw => Phrase.foldlM_push_postorder hd e stack hw.2.1

/-- Folding the postorder of arguments puts their trees on the stack, the last one on top. -/
theorem Arguments.foldlM_push_postorder (hd : d.ArityMatched) :
    ∀ (as : Arguments) (stack : List Term), as.WellFormed d →
    as.postorder.foldlM push stack = .ok (as.terms.reverse ++ stack)
  | .one e, stack, hw => Phrase.foldlM_push_postorder hd e stack hw
  | .more as s e, stack, ⟨has, _, he⟩ => by
    rw [Arguments.postorder, List.foldlM_append, Arguments.foldlM_push_postorder hd as stack has]
    change e.postorder.foldlM push (as.terms.reverse ++ stack) = _
    rw [Phrase.foldlM_push_postorder hd e _ he]
    simp [Arguments.terms]

end

/-- The postorder of a phrase folds to an operation exactly if the tree of the phrase is one. -/
theorem Phrase.fold_postorder_eq_ok_iff (hd : d.ArityMatched) {e : Phrase} (he : e.WellFormed d)
    {o : Operation} :
    fold e.postorder = .ok o ↔ e.term = o.toTerm := by
  rw [fold_eq_ok_iff, e.foldlM_push_postorder hd [] he]
  simp

end

theorem Postfix.resolve_ne_apply (t : Token TokenKind) (op : Operator) (operands : List Term) :
    resolve t ≠ .ok (.apply op operands) := by
  unfold resolve Term.reference?
  intro h
  split at h
  · cases h
  · split at h
    · cases h
    · split at h
      · next hr =>
        cases h
        obtain ⟨p, -, hp⟩ := Option.map_eq_some_iff.1 hr
        cases hp
      · cases h

/-- The tree of a phrase is an operation unless the phrase is a bare operand. -/
theorem Phrase.exists_term_eq_iff {d : Dialect} : ∀ {e : Phrase}, e.WellFormed d →
    ((∃ o : Operation, e.term = o.toTerm) ↔ ¬ e.Bare)
  | .value t v, hw => by
    simp only [Bare, not_true_eq_false, iff_false, not_exists]
    rintro o rfl
    exact Postfix.resolve_ne_apply t _ _ hw.2
  | .before t op e, _ => by simpa [Bare] using ⟨⟨op, [e.term]⟩, rfl⟩
  | .between l t op r, _ => by simpa [Bare] using ⟨⟨op, [l.term, r.term]⟩, rfl⟩
  | .call m op o as c, _ => by simpa [Bare] using ⟨⟨op, as.terms⟩, rfl⟩
  | .bracketed o e c, hw => by simpa [Bare, term] using Phrase.exists_term_eq_iff hw.2.1

end Criteria
