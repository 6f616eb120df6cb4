import Criteria.Dialect.Builtin
import Criteria.Proofs.Expression.Balance

/-!
# Which tokens make up a tree

Reordering and folding give a tree for exactly the sentences of the language of expressions, a bare
operand excepted, and the tree is that of the one derivation that is grouped by precedence.

The rules of the language are those of `Phrase`. Two derivations of the same tokens may differ, but
they have the same operators, so that a sentence is a bare operand or it is not (`Phrase.bare_iff`).
-/

namespace Criteria

open Postfix

/-- The categories of operators. -/
def TokenKind.IsOperator (k : TokenKind) : Prop :=
  k = .unaryOperator ∨ k = .binaryOperator ∨ k = .method

/-- A sentence is a bare operand if there is no operator in it. -/
theorem Phrase.bare_iff {d : Dialect} : ∀ {p : Phrase}, p.WellFormed d →
    (p.Bare ↔ ∀ t ∈ p.tokens, ¬ t.kind.IsOperator)
  | .value t v, hw => by
    rcases hw.1 with hk | hk <;> simp [Bare, tokens, TokenKind.IsOperator, hk]
  | .before t op e, hw => by
    have ht : t.kind.IsOperator := .inl hw.1.1
    simp [Bare, tokens, ht]
  | .between l t op r, hw => by
    have ht : t.kind.IsOperator := .inr (.inl hw.2.1.1)
    simp only [Bare, tokens, false_iff]
    intro h
    exact h t (by simp) ht
  | .call m op o as c, hw => by
    have hm : m.kind.IsOperator := .inr (.inr hw.1.1)
    simp [Bare, tokens, hm]
  | .bracketed o e c, ⟨ho, he, hc⟩ => by
    have ih := Phrase.bare_iff he
    have ho : ¬ o.kind.IsOperator := by simp [TokenKind.IsOperator, ho]
    have hc : ¬ c.kind.IsOperator := by simp [TokenKind.IsOperator, hc]
    simp [Bare, tokens, ih, ho, hc, or_imp, forall_and]

/-- Any two derivations of the same tokens are bare operands or neither is. -/
theorem Phrase.bare_congr {d : Dialect} {p q : Phrase} (hp : p.WellFormed d) (hq : q.WellFormed d)
    (h : p.tokens = q.tokens) : p.Bare ↔ q.Bare := by
  rw [bare_iff hp, bare_iff hq, h]

/-- **Reordering and folding are correct.** Tokens that the grammar accepts one by one give a tree
if and only if they are a sentence other than a bare operand, and the tree is that of the only
derivation of them that is grouped by precedence. -/
theorem fold_reorder_correct {d : Dialect} (hd : d.ArityMatched) {ts : List (Token TokenKind)}
    {s : Nat} (ha : expressionGrammar.after? expressionGrammar.initial ts = some s) :
    ((∃ o, reorder d ts >>= fold = .ok o) ↔
      ∃ p : Phrase, p.WellFormed d ∧ p.tokens = ts ∧ ¬ p.Bare) ∧
    ∀ o, reorder d ts >>= fold = .ok o →
      ∃ e : Phrase, (e.WellFormed d ∧ e.Grouped ∧ e.tokens = ts) ∧ e.term = o.toTerm ∧
        ∀ p : Phrase, p.WellFormed d → p.Grouped → p.tokens = ts → p = e := by
  have grouped {o : Operation} (h : reorder d ts >>= fold = .ok o) :
      ∃ e : Phrase, (e.WellFormed d ∧ e.Grouped ∧ e.tokens = ts) ∧ e.term = o.toTerm := by
    obtain ⟨sequence, hr, hf⟩ := bind_eq_ok_iff.1 h
    obtain ⟨e, he⟩ := exists_read?_of_fold hd ha hr hf
    have hw := (read?_eq_some_iff hd).1 he
    rw [reorder_of_read? hd he] at hr
    cases hr
    exact ⟨e, hw, (Phrase.fold_postorder_eq_ok_iff hd hw.1).1 hf⟩
  refine ⟨⟨?_, ?_⟩, ?_⟩
  · rintro ⟨o, ho⟩
    obtain ⟨e, ⟨hw, -, ht⟩, he⟩ := grouped ho
    exact ⟨e, hw, ht, (Phrase.exists_term_eq_iff hw).1 ⟨o, he⟩⟩
  · rintro ⟨p, hp, rfl, hb⟩
    obtain ⟨e, hw, hg, ht⟩ := Phrase.exists_grouped hd hp
    have hbe : ¬ e.Bare := mt (Phrase.bare_congr hw hp ht).1 hb
    obtain ⟨o, ho⟩ := (Phrase.exists_term_eq_iff hw).2 hbe
    refine ⟨o, bind_eq_ok_iff.2 ⟨e.postorder, ?_, ?_⟩⟩
    · exact reorder_of_read? hd ((read?_eq_some_iff hd).2 ⟨hw, hg, ht⟩)
    · exact (Phrase.fold_postorder_eq_ok_iff hd hw).2 ho
  · intro o ho
    obtain ⟨e, hw, he⟩ := grouped ho
    exact ⟨e, hw, he, fun p hp hpg hpt => Phrase.eq_of_tokens_eq hd hp hpg hw.1 hw.2.1
      (hpt.trans hw.2.2.symm)⟩

/-- Negation binds tighter than a difference, and a difference of three is grouped to the left. -/
theorem fold_reorder_correct_difference :
    let d : Dialect := {
      name := "sharp"
      caseSensitive := false
      spellings := DialectDraft.sharp.spellings
      rules := []
      lexer := ⟨.ofDefinitions [], expressionGrammar⟩ }
    let ts : List (Token TokenKind) :=
      [⟨.unaryOperator, "!", 0⟩, ⟨.null, "null", 1⟩, ⟨.binaryOperator, "-", 5⟩, ⟨.null, "null", 6⟩,
        ⟨.binaryOperator, "-", 10⟩, ⟨.null, "null", 11⟩]
    d.ArityMatched ∧ expressionGrammar.after? expressionGrammar.initial ts = some 1 ∧
      ∃ e : Phrase, (e.WellFormed d ∧ e.Grouped ∧ e.tokens = ts) ∧
        e.term = .apply .subtract
          [.apply .subtract [.apply .not [.literal .null], .literal .null], .literal .null] := by
  intro d ts
  have hd : d.ArityMatched := by
    unfold Dialect.ArityMatched
    decide
  have ha : expressionGrammar.after? expressionGrammar.initial ts = some 1 := by decide
  have ho : reorder d ts >>= fold = .ok ⟨.subtract,
      [.apply .subtract [.apply .not [.literal .null], .literal .null], .literal .null]⟩ := rfl
  obtain ⟨e, hw, he, -⟩ := (fold_reorder_correct hd ha).2 _ ho
  exact ⟨hd, ha, e, hw, he⟩

/-- The spellings of the built-in dialects are those of operators with the right number of
operands. -/
theorem Dialect.arityMatched_of_builtin {draft : DialectDraft} {d : Dialect}
    (hdraft : draft ∈ DialectDraft.builtins) (h : draft.build = .ok d) : d.ArityMatched := by
  obtain ⟨definitions, -, h⟩ := bind_eq_ok_iff.1 h
  cases h
  have hall : ∀ draft ∈ DialectDraft.builtins, ∀ s ∈ draft.spellings,
      (s.kind = .unaryOperator → s.operator.arity = 1) ∧
        (s.kind = .binaryOperator → s.operator.arity = 2) := by decide
  exact hall draft hdraft

end Criteria
