import Criteria.Proofs.Expression.Balance

/-!
# What parsing fails with

Putting tokens in order fails at a token whose operator is not known, or for a bracket, a call or a
separator that is out of place (`SyntaxError.OfOrder`). Building the tree fails for an operand that
names nothing, or for operators and operands that do not fit together (`SyntaxError.OfTree`). The
two have no error in common, so an error tells which of the steps gave it.
-/

namespace Criteria

open Postfix

namespace SyntaxError

/-- The errors about brackets, calls and separators. -/
inductive OfOrder : SyntaxError → Prop where
  | bracket (text : String) (offset : Nat) : OfOrder (.unbalancedBracket text offset)
  | call (method : String) (offset : Nat) : OfOrder (.missingMethodBracket method offset)
  | arguments (method : String) (expected found offset : Nat) :
      OfOrder (.argumentCount method expected found offset)
  | separator (offset : Nat) : OfOrder (.misplacedSeparator offset)

/-- The errors about operands and operators that make up no tree. -/
inductive OfTree : SyntaxError → Prop where
  | operand (offset : Nat) (text : String) : OfTree (.unexpectedInput offset text)
  | missing (operator : String) : OfTree (.missingOperand operator)
  | shape (reason : String) : OfTree (.noOperation reason)

end SyntaxError

namespace TokenKind

/-- The categories of operators. -/
def operators : List TokenKind := [method, unaryOperator, binaryOperator]

end TokenKind

namespace Postfix

variable {d : Dialect} {e : SyntaxError}

/-! ### Order -/

theorem lookUp_eq_error_iff {t : Token TokenKind} :
    lookUp d t = .error e ↔ d.operator? t.text t.kind = none ∧ e = .unknownOperator t.text t.start := by
  unfold lookUp
  cases d.operator? t.text t.kind <;> simp [eq_comm]

theorem ofOrder_of_drain {stack : List Waiting} (h : drain stack = .error e) : e.OfOrder := by
  induction stack with
  | nil => cases h
  | cons w stack ih =>
    cases w with
    | bracket b =>
      cases h
      exact .bracket _ _
    | operator op | method op n offset =>
      rcases bind_eq_error_iff.1 h with h | ⟨ops, -, ⟨⟩⟩
      exact ih h

theorem ofOrder_of_close {t : Token TokenKind} {stack : List Waiting}
    (h : close t stack = .error e) : e.OfOrder := by
  induction stack with
  | nil =>
    cases h
    exact .bracket _ _
  | cons w stack ih =>
    cases w with
    | bracket b => cases h
    | operator op =>
      rcases bind_eq_error_iff.1 h with h | ⟨r, -, ⟨⟩⟩
      exact ih h
    | method op n offset =>
      -- the arguments of a call are counted when its bracket is closed
      by_cases hn : n = op.arity
      · simp only [close, hn, ne_eq, not_true_eq_false, if_false] at h
        rcases bind_eq_error_iff.1 h with h | ⟨r, -, ⟨⟩⟩
        exact ih h
      · simp only [close, ne_eq, hn, not_false_eq_true, if_true] at h
        cases h
        exact .arguments _ _ _ _

theorem ofOrder_of_nextArgument {t : Token TokenKind} {r : Released}
    (h : nextArgument t r = .error e) : e.OfOrder := by
  unfold nextArgument at h
  split at h
  · cases h
  · cases h
    exact .separator _

/-- **Putting tokens in order fails at an unknown operator, or for what is out of place.** -/
theorem error_of_reorderFrom {stack : List Waiting} {ts : List (Token TokenKind)}
    (h : reorderFrom d stack ts = .error e) :
    (∃ t ∈ ts, t.kind ∈ TokenKind.operators ∧ lookUp d t = .error e) ∨ e.OfOrder := by
  -- a token that is looked up stays among the tokens in front of which more are put
  have hlater {t : Token TokenKind} {ts : List (Token TokenKind)}
      (h : (∃ u ∈ ts, u.kind ∈ TokenKind.operators ∧ lookUp d u = .error e) ∨ e.OfOrder) :
      (∃ u ∈ t :: ts, u.kind ∈ TokenKind.operators ∧ lookUp d u = .error e) ∨ e.OfOrder :=
    h.imp_left fun ⟨u, hu, hk⟩ => ⟨u, List.mem_cons_of_mem t hu, hk⟩
  fun_induction reorderFrom d stack ts with
  | case1 stack =>
    rcases bind_eq_error_iff.1 h with h | ⟨ops, -, ⟨⟩⟩
    exact .inr (ofOrder_of_drain h)
  | case2 stack t ts hk ih | case3 stack t ts hk ih =>
    rcases bind_eq_error_iff.1 h with h | ⟨rest, -, ⟨⟩⟩
    exact hlater (ih h)
  | case4 stack t ts hk ih =>
    rcases bind_eq_error_iff.1 h with h | ⟨op, -, h⟩
    · exact .inl ⟨t, List.mem_cons_self, by simp [hk, TokenKind.operators], h⟩
    · exact hlater (ih op h)
  | case5 stack t ts hk ih =>
    rcases bind_eq_error_iff.1 h with h | ⟨op, -, h⟩
    · exact .inl ⟨t, List.mem_cons_self, by simp [hk, TokenKind.operators], h⟩
    · rcases bind_eq_error_iff.1 h with h | ⟨rest, -, ⟨⟩⟩
      exact hlater (ih op _ h)
  | case6 stack t ts hk ih =>
    rcases bind_eq_error_iff.1 h with h | ⟨op, -, h⟩
    · exact .inl ⟨t, List.mem_cons_self, by simp [hk, TokenKind.operators], h⟩
    · rcases ts with _ | ⟨b, ts⟩
      · cases h
        exact .inr (.call _ _)
      · by_cases hb : b.kind = .bracketOpen
        · simp only [hb, if_true] at h
          exact hlater (hlater (ih op h))
        · simp only [hb, if_false] at h
          cases h
          exact .inr (.call _ _)
  | case7 stack t ts hk ih => exact hlater (ih h)
  | case8 stack t ts hk ih =>
    rcases bind_eq_error_iff.1 h with h | ⟨r, -, h⟩
    · exact .inr (ofOrder_of_close h)
    · rcases bind_eq_error_iff.1 h with h | ⟨rest, -, ⟨⟩⟩
      exact hlater (ih r.2 h)
  | case9 stack t ts hk ih =>
    rcases bind_eq_error_iff.1 h with h | ⟨r, -, h⟩
    · exact .inr (ofOrder_of_nextArgument h)
    · rcases bind_eq_error_iff.1 h with h | ⟨rest, -, ⟨⟩⟩
      exact hlater (ih r.2 h)

/-! ### Trees -/

theorem ofTree_of_resolve {t : Token TokenKind} (h : resolve t = .error e) : e.OfTree := by
  unfold resolve at h
  split_ifs at h
  split at h
  · cases h
  · split at h
    · cases h
    · cases h
      exact .operand _ _

theorem ofTree_of_push {stack : List Term} {item : Item} (h : push stack item = .error e) :
    e.OfTree := by
  obtain ⟨t, -, h⟩ | ⟨op, -, -, rfl⟩ := push_error_cases h
  · exact ofTree_of_resolve h
  · exact .missing _

theorem ofTree_of_single {stack : List Term} (h : single stack = .error e) : e.OfTree := by
  unfold single at h
  split at h <;> cases h <;> exact .shape _

theorem ofTree_of_foldlM {sequence : List Item} {stack : List Term}
    (h : sequence.foldlM push stack = .error e) : e.OfTree := by
  induction sequence generalizing stack with
  | nil => cases h
  | cons item sequence ih =>
    rw [List.foldlM_cons] at h
    rcases bind_eq_error_iff.1 h with h | ⟨stack', -, h⟩
    · exact ofTree_of_push h
    · exact ih h

/-- **Building a tree fails for what makes up no tree.** -/
theorem ofTree_of_fold {sequence : List Item} (h : fold sequence = .error e) : e.OfTree := by
  rcases bind_eq_error_iff.1 h with h | ⟨stack, -, h⟩
  · exact ofTree_of_foldlM h
  · exact ofTree_of_single h

end Postfix

/-- Where parsing finds an operator unknown, it is that of a token. -/
theorem Dialect.exists_of_unknownOperator {d : Dialect} {input : String} {ts : List (Token TokenKind)}
    (hts : d.tokenize input = .ok ts) {spelling : String} {offset : Nat}
    (h : d.parse input = .error (.unknownOperator spelling offset)) :
    ∃ t ∈ ts, t.kind ∈ TokenKind.operators ∧ d.operator? t.text t.kind = none ∧
      t.text = spelling ∧ t.start = offset := by
  rw [parse, hts, ok_bind] at h
  rcases bind_eq_error_iff.1 h with h | ⟨sequence, -, h⟩
  · rcases error_of_reorderFrom h with ⟨t, ht, hk, hlook⟩ | hother
    · obtain ⟨hnone, heq⟩ := lookUp_eq_error_iff.1 hlook
      cases heq
      exact ⟨t, ht, hk, hnone, rfl, rfl⟩
    · cases hother
  · cases ofTree_of_fold h

end Criteria
