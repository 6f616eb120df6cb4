import Criteria.Postfix
import Criteria.Proofs.Fallible

/-!
# Phrases

Sentences of the language of expressions are derived by the rules

`E ::= OPERAND | NULL | UNARY E | E BINARY E | METHOD ( E , … , E ) | ( E )`

in which a method has exactly as many arguments as its operator takes. A `Phrase` is a derivation:
it keeps every token, the operators that the tokens spell and the terms that the operands stand for.

* `Phrase.tokens` reads a phrase from left to right, and `Phrase.WellFormed` says that each token
  has its category and its meaning in a dialect. The rules are ambiguous: one list of tokens may be
  that of several phrases.
* `Phrase.Grouped` singles out the phrases that are grouped by precedence: an operator in front of
  its operand binds tighter than any operator in between, of the operators in between one of higher
  precedence binds tighter, and those of equal precedence are grouped to the left.
* `Phrase.term` is the tree of a phrase and `Phrase.postorder` lists it in postfix order.
-/

namespace Criteria

open Postfix (Item)

mutual

/-- A derivation of an expression. -/
inductive Phrase where
  /-- An operand or `null`, with the term that it stands for. -/
  | value (t : Token TokenKind) (v : Term)
  /-- An operator in front of its operand. -/
  | before (t : Token TokenKind) (op : Operator) (operand : Phrase)
  /-- An operator between its operands. -/
  | between (left : Phrase) (t : Token TokenKind) (op : Operator) (right : Phrase)
  /-- A method with its brackets and arguments. -/
  | call (name : Token TokenKind) (op : Operator) (opening : Token TokenKind)
      (arguments : Arguments) (closing : Token TokenKind)
  | bracketed (opening : Token TokenKind) (inner : Phrase) (closing : Token TokenKind)

/-- The arguments of a method, one at least, with the separators between them. -/
inductive Arguments where
  | one (e : Phrase)
  | more (earlier : Arguments) (separator : Token TokenKind) (last : Phrase)

end

mutual

/-- The tokens of a phrase from left to right. -/
def Phrase.tokens : Phrase → List (Token TokenKind)
  | .value t _ => [t]
  | .before t _ e => t :: e.tokens
  | .between l t _ r => l.tokens ++ t :: r.tokens
  | .call m _ o as c => m :: o :: (as.tokens ++ [c])
  | .bracketed o e c => o :: (e.tokens ++ [c])

/-- The tokens of arguments and their separators from left to right. -/
def Arguments.tokens : Arguments → List (Token TokenKind)
  | .one e => e.tokens
  | .more as s e => as.tokens ++ s :: e.tokens

end

mutual

/-- The tree of a phrase. -/
def Phrase.term : Phrase → Term
  | .value _ v => v
  | .before _ op e => .apply op [e.term]
  | .between l _ op r => .apply op [l.term, r.term]
  | .call _ op _ as _ => .apply op as.terms
  | .bracketed _ e _ => e.term

/-- The trees of arguments. -/
def Arguments.terms : Arguments → List Term
  | .one e => [e.term]
  | .more as _ e => as.terms ++ [e.term]

end

mutual

/-- A phrase in postfix order: operands in front of their operator, brackets left out. -/
def Phrase.postorder : Phrase → List Item
  | .value t _ => [.value t]
  | .before _ op e => e.postorder ++ [.operator op]
  | .between l _ op r => l.postorder ++ r.postorder ++ [.operator op]
  | .call _ op _ as _ => as.postorder ++ [.operator op]
  | .bracketed _ e _ => e.postorder

/-- Arguments in postfix order. -/
def Arguments.postorder : Arguments → List Item
  | .one e => e.postorder
  | .more as _ e => as.postorder ++ e.postorder

end

/-- The number of arguments. -/
def Arguments.count : Arguments → Nat
  | .one _ => 1
  | .more as _ _ => as.count + 1

theorem Arguments.length_terms (as : Arguments) : as.terms.length = as.count := by
  match as with
  | .one _ => rfl
  | .more as _ _ => simp [terms, count, as.length_terms]

/-- Whether a token spells an operator of a category in a dialect. -/
def Token.Spells (d : Dialect) (t : Token TokenKind) (kind : TokenKind) (op : Operator) : Prop :=
  t.kind = kind ∧ d.operator? t.text t.kind = some op

theorem Token.Spells.operator?_eq {d : Dialect} {t : Token TokenKind} {kind : TokenKind}
    {op : Operator} (h : t.Spells d kind op) : d.operator? t.text kind = some op :=
  h.1 ▸ h.2

mutual

/-- Whether every token of a phrase has the category that the rules ask for and the meaning that it
has in a dialect. -/
def Phrase.WellFormed (d : Dialect) : Phrase → Prop
  | .value t v => (t.kind = .operand ∨ t.kind = .null) ∧ Postfix.resolve t = .ok v
  | .before t op e => t.Spells d .unaryOperator op ∧ e.WellFormed d
  | .between l t op r => l.WellFormed d ∧ t.Spells d .binaryOperator op ∧ r.WellFormed d
  | .call m op o as c => m.Spells d .method op ∧ o.kind = .bracketOpen ∧ as.WellFormed d ∧
      as.count = op.arity ∧ c.kind = .bracketClose
  | .bracketed o e c => o.kind = .bracketOpen ∧ e.WellFormed d ∧ c.kind = .bracketClose

/-- Whether every token of arguments and separators has its category and its meaning. -/
def Arguments.WellFormed (d : Dialect) : Arguments → Prop
  | .one e => e.WellFormed d
  | .more as s e => as.WellFormed d ∧ s.kind = .separator ∧ e.WellFormed d

end

namespace Phrase

/-- The operator between the two parts of a phrase that no brackets hold together. -/
def between? : Phrase → Option Operator
  | between _ _ op _ => some op
  | _ => none

/-- Whether a phrase is an operand alone, perhaps in brackets. -/
def Bare : Phrase → Prop
  | value _ _ => True
  | bracketed _ e _ => e.Bare
  | _ => False

end Phrase

mutual

/-- Whether a phrase is grouped by precedence, and from the left where precedence is equal. -/
def Phrase.Grouped : Phrase → Prop
  | .value _ _ => True
  | .before _ _ e => e.Grouped ∧ e.between? = none
  | .between l _ op r => l.Grouped ∧ (∀ f ∈ l.between?, op.precedence ≤ f.precedence) ∧
      r.Grouped ∧ ∀ f ∈ r.between?, op.precedence < f.precedence
  | .call _ _ _ as _ => as.Grouped
  | .bracketed _ e _ => e.Grouped

/-- Whether all arguments are grouped by precedence. -/
def Arguments.Grouped : Arguments → Prop
  | .one e => e.Grouped
  | .more as _ e => as.Grouped ∧ e.Grouped

end

theorem Postfix.resolve_of_toOption {t : Token TokenKind} {v : Term}
    (h : (Postfix.resolve t).toOption = some v) : Postfix.resolve t = .ok v := by
  cases hr : Postfix.resolve t with
  | error e => rw [hr] at h; cases h
  | ok w => rw [hr] at h; cases h; rfl

/-- An operand stands for the literal that its text is, and else for the path that it names. -/
theorem Postfix.resolve_operand_iff {t : Token TokenKind} (hk : t.kind = .operand) {v : Term} :
    Postfix.resolve t = .ok v ↔ (∃ w, Literal.classify t.text = some w ∧ v = .literal w) ∨
      Literal.classify t.text = none ∧ ∃ p, FieldPath.parse? t.text = some p ∧ v = .reference p := by
  rw [resolve, if_neg (by simp [hk])]
  cases Literal.classify t.text with
  | some w => simp [eq_comm]
  | none => cases hp : FieldPath.parse? t.text <;> simp [Term.reference?, hp, eq_comm]

/-! ### Dialects and precedence -/

/-- Whether the spellings of a dialect are those of operators with as many operands as the category
of the spelling has places for them. -/
def Dialect.ArityMatched (d : Dialect) : Prop :=
  ∀ s ∈ d.spellings, (s.kind = .unaryOperator → s.operator.arity = 1) ∧
    (s.kind = .binaryOperator → s.operator.arity = 2)

theorem Dialect.exists_spelling {d : Dialect} {text : String} {kind : TokenKind} {op : Operator}
    (h : d.operator? text kind = some op) :
    ∃ s ∈ d.spellings, s.kind = kind ∧ d.spells s text ∧ s.operator = op := by
  obtain ⟨s, hs, rfl⟩ := Option.map_eq_some_iff.1 h
  have hp := List.find?_some hs
  simp only [Bool.and_eq_true, beq_iff_eq] at hp
  exact ⟨s, List.mem_of_find?_eq_some hs, hp.1, hp.2, rfl⟩

theorem Dialect.ArityMatched.unary {d : Dialect} (hd : d.ArityMatched) {t : Token TokenKind}
    {op : Operator} (h : t.Spells d .unaryOperator op) : op.arity = 1 := by
  obtain ⟨s, hs, hk, -, rfl⟩ := exists_spelling h.2
  exact (hd s hs).1 (hk.trans h.1)

theorem Dialect.ArityMatched.binary {d : Dialect} (hd : d.ArityMatched) {t : Token TokenKind}
    {op : Operator} (h : t.Spells d .binaryOperator op) : op.arity = 2 := by
  obtain ⟨s, hs, hk, -, rfl⟩ := exists_spelling h.2
  exact (hd s hs).2 (hk.trans h.1)

/-- An operator with a single operand has a higher precedence than any with two. -/
theorem Operator.precedence_lt_of_arity {f g : Operator} (hf : f.arity = 2) (hg : g.arity = 1) :
    f.precedence < g.precedence := by
  cases f <;> simp [arity] at hf <;> cases g <;> simp [arity] at hg <;> decide

/-- For an operator in between, precedence alone decides which operators it lets go first. -/
theorem Operator.bindsTighterThan_iff {next top : Operator} (hn : next.arity = 2)
    (ht : top.arity = 1 ∨ top.arity = 2) :
    next.bindsTighterThan top = true ↔ top.precedence < next.precedence := by
  rcases ht with ht | ht
  · have := precedence_lt_of_arity hn ht
    simp only [bindsTighterThan, Bool.or_eq_true, decide_eq_true_eq, Bool.and_eq_true, beq_iff_eq]
    omega
  · have hl : top.associativity = .left := by cases top <;> simp_all [arity, associativity]
    simp [bindsTighterThan, hl]

end Criteria
