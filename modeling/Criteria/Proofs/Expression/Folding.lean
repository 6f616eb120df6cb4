import Criteria.Proofs.Expression.Leaves

/-!
# Folding inverts postorder

A `Symbol` is an element of a sequence with the term that an operand stands for in place of its text.
`Term.postorder` lists a tree in postfix order, and `fold` reads the list back:

* what is on the stack of operands, listed in postfix order, is what has been folded
  (`symbols_of_foldlM_push`), so that nothing is left out and nothing is used twice;
* a sequence whose symbols are the postorder of a complete tree puts this tree on the stack
  (`Term.foldlM_push_of_postorder`).

`fold_eq_ok_iff_postorder` puts the two together. A sequence of symbols is the postorder of one tree at
most, so that a tree tells its sequence up to the spelling of the operands.
-/

namespace Criteria

open Postfix

namespace Postfix

/-- An element of a sequence in postfix order, once the operands are known. -/
inductive Symbol where
  | operand (v : Term)
  | operator (op : Operator)
  deriving DecidableEq, Repr

/-- What an element stands for. -/
def Item.symbol : Item → Except SyntaxError Symbol
  | .value t => return .operand (← resolve t)
  | .operator op => return .operator op

theorem Item.symbol_eq_operand_iff {i : Item} {v : Term} :
    i.symbol = .ok (.operand v) ↔ ∃ t, i = .value t ∧ resolve t = .ok v := by
  cases i with
  | value t =>
    rw [symbol, bind_eq_ok_iff]
    constructor
    · rintro ⟨w, hw, h⟩
      cases h
      exact ⟨t, rfl, hw⟩
    · rintro ⟨_, ⟨⟩, hv⟩
      exact ⟨v, hv, rfl⟩
  | operator op =>
    constructor
    · intro h
      cases h
    · rintro ⟨_, ⟨⟩, _⟩

theorem Item.symbol_eq_operator_iff {i : Item} {op : Operator} :
    i.symbol = .ok (.operator op) ↔ i = .operator op := by
  cases i with
  | value t =>
    constructor
    · intro h
      obtain ⟨_, _, h⟩ := bind_eq_ok_iff.1 h
      cases h
    · intro h
      cases h
  | operator op' =>
    constructor
    · intro h
      cases h
      rfl
    · intro h
      cases h
      rfl

end Postfix

mutual

/-- A tree in postfix order: the operands of an operator from left to right, then the operator. -/
def Term.postorder : Term → List Symbol
  | .literal v => [.operand (.literal v)]
  | .reference path => [.operand (.reference path)]
  | .external handle => [.operand (.external handle)]
  | .apply op operands => Term.postorderList operands ++ [.operator op]

/-- Several trees in postfix order, one behind the other. -/
def Term.postorderList : List Term → List Symbol
  | [] => []
  | t :: ts => t.postorder ++ Term.postorderList ts

end

namespace Term

@[simp] theorem postorderList_nil : postorderList [] = [] := rfl

@[simp] theorem postorderList_cons (t : Term) (ts : List Term) :
    postorderList (t :: ts) = t.postorder ++ postorderList ts := rfl

@[simp] theorem postorderList_append (ts us : List Term) :
    postorderList (ts ++ us) = postorderList ts ++ postorderList us := by
  induction ts with
  | nil => rfl
  | cons t ts ih => simp [ih]

@[simp] theorem postorder_apply (op : Operator) (operands : List Term) :
    (apply op operands).postorder = postorderList operands ++ [.operator op] := rfl

/-- An operand is listed as itself. -/
theorem postorder_of_resolve {t : Token TokenKind} {v : Term} (h : resolve t = .ok v) :
    v.postorder = [.operand v] := by
  cases v with
  | apply op operands => exact absurd h (resolve_ne_apply t op operands)
  | _ => rfl

end Term

open Term

/-! ### What is on the stack is what has been folded -/

/-- An element adds its symbol to what the stack lists in postfix order. -/
theorem symbol_of_push {i : Item} {stack stack' : List Term} (h : push stack i = .ok stack') :
    ∃ s, i.symbol = .ok s ∧
      postorderList stack'.reverse = postorderList stack.reverse ++ [s] := by
  obtain ⟨t, v, rfl, hv, rfl⟩ | ⟨op, operands, below, rfl, -, rfl, rfl⟩ := push_cases h
  · exact ⟨.operand v, Item.symbol_eq_operand_iff.2 ⟨t, rfl, hv⟩, by simp [postorder_of_resolve hv]⟩
  · exact ⟨.operator op, rfl, by simp⟩

/-- So does a whole sequence. -/
theorem symbols_of_foldlM_push {sequence : List Item} {stack stack' : List Term}
    (h : sequence.foldlM push stack = .ok stack') :
    ∃ symbols, sequence.mapM Item.symbol = .ok symbols ∧
      postorderList stack'.reverse = postorderList stack.reverse ++ symbols := by
  induction sequence generalizing stack with
  | nil =>
    cases h
    exact ⟨[], rfl, by simp⟩
  | cons i sequence ih =>
    rw [List.foldlM_cons] at h
    obtain ⟨mid, hpush, h⟩ := bind_eq_ok_iff.1 h
    obtain ⟨s, hs, hmid⟩ := symbol_of_push hpush
    obtain ⟨symbols, hsymbols, hlist⟩ := ih h
    exact ⟨s :: symbols, mapM_eq_ok_iff.2 (.cons hs (mapM_eq_ok_iff.1 hsymbols)),
      by rw [hlist, hmid, List.append_assoc, List.singleton_append]⟩

/-! ### What is listed in postfix order is folded -/

theorem foldlM_push_of_operand {sequence : List Item} {v : Term}
    (h : sequence.mapM Item.symbol = .ok [.operand v]) (stack : List Term) :
    sequence.foldlM push stack = .ok (v :: stack) := by
  obtain ⟨i, rfl, hi⟩ := exists_of_mapM_singleton h
  obtain ⟨t, rfl, ht⟩ := Item.symbol_eq_operand_iff.1 hi
  rw [List.foldlM_cons, push_value ht]
  rfl

mutual

/-- **The postorder of a complete tree puts this tree on the stack.** -/
theorem Term.foldlM_push_of_postorder : ∀ (t : Term) (sequence : List Item) (stack : List Term),
    t.Complete → sequence.mapM Item.symbol = .ok t.postorder →
      sequence.foldlM push stack = .ok (t :: stack)
  | .literal _, _, stack, _, h => foldlM_push_of_operand h stack
  | .reference _, _, stack, _, h => foldlM_push_of_operand h stack
  | .external _, _, stack, _, h => foldlM_push_of_operand h stack
  | .apply op operands, sequence, stack, ⟨hlen, hcomplete⟩, h => by
    obtain ⟨front, back, rfl, hfront, hback⟩ := exists_append_of_mapM h
    obtain ⟨i, rfl, hi⟩ := exists_of_mapM_singleton hback
    obtain rfl := Item.symbol_eq_operator_iff.1 hi
    rw [List.foldlM_append,
      Term.foldlM_push_of_postorderList operands front stack hcomplete hfront]
    change [Item.operator op].foldlM push (operands.reverse ++ stack) = _
    rw [List.foldlM_cons, push_operator operands stack hlen]
    rfl

/-- The postorder of complete trees puts them on the stack, the last one on top. -/
theorem Term.foldlM_push_of_postorderList : ∀ (ts : List Term) (sequence : List Item)
    (stack : List Term), Term.CompleteList ts →
      sequence.mapM Item.symbol = .ok (Term.postorderList ts) →
        sequence.foldlM push stack = .ok (ts.reverse ++ stack)
  | [], sequence, stack, _, h => by
    obtain rfl := List.forall₂_nil_right_iff.1 (mapM_eq_ok_iff.1 h)
    rfl
  | t :: ts, sequence, stack, ⟨ht, hts⟩, h => by
    obtain ⟨front, back, rfl, hfront, hback⟩ := exists_append_of_mapM h
    rw [List.foldlM_append, Term.foldlM_push_of_postorder t front stack ht hfront]
    change back.foldlM push (t :: stack) = _
    rw [Term.foldlM_push_of_postorderList ts back (t :: stack) hts hback]
    simp

end

/-! ### Sequences and trees -/

/-- **Folding inverts postorder.** A sequence folds to a tree exactly if its operands stand for terms,
its symbols are the postorder of the tree, and every operator in the tree has as many operands as it
takes. So two sequences that fold to one tree have the same symbols, element by element. -/
theorem fold_eq_ok_iff_postorder (sequence : List Item) (o : Operation) :
    (fold sequence = .ok o ↔
      sequence.mapM Item.symbol = .ok o.toTerm.postorder ∧ o.toTerm.Complete) ∧
    (fold sequence = .ok o → ∀ sequence', fold sequence' = .ok o →
      List.Forall₂ (fun i j => i.symbol = j.symbol) sequence sequence') := by
  have symbols {sequence : List Item} (h : fold sequence = .ok o) :
      sequence.mapM Item.symbol = .ok o.toTerm.postorder := by
    obtain ⟨symbols, hsymbols, hlist⟩ := symbols_of_foldlM_push (fold_eq_ok_iff.1 h)
    have hlist : o.toTerm.postorder = symbols := by simpa using hlist
    rw [hsymbols, hlist]
  refine ⟨⟨fun h => ⟨symbols h, ?_⟩, ?_⟩, fun h sequence' h' => ?_⟩
  · exact ((leaves_of_foldlM_push (fold_eq_ok_iff.1 h)).2 trivial).1
  · rintro ⟨hsymbols, hcomplete⟩
    exact fold_eq_ok_iff.2 (o.toTerm.foldlM_push_of_postorder sequence [] hcomplete hsymbols)
  · exact forall₂_of_mapM_eq (symbols h) (symbols h')

/-- Two spellings of a number in a choice that is negated. -/
theorem fold_eq_ok_iff_postorder_spelling :
    let sequence (text : String) : List Item :=
      [.value ⟨.null, "null", 4⟩, .value ⟨.operand, text, 10⟩, .value ⟨.operand, "2", 13⟩,
        .operator .conditional, .operator .not]
    let o : Operation := ⟨.not, [.apply .conditional
      [.literal .null, .literal (.integer 1), .literal (.integer 2)]]⟩
    fold (sequence "1") = .ok o ∧ fold (sequence "01") = .ok o ∧
      List.Forall₂ (fun i j => i.symbol = j.symbol) (sequence "1") (sequence "01") := by
  intro sequence o
  have h1 : fold (sequence "1") = .ok o := by decide +kernel
  have h2 : fold (sequence "01") = .ok o := by decide +kernel
  exact ⟨h1, h2, (fold_eq_ok_iff_postorder (sequence "1") o).2 h1 (sequence "01") h2⟩

end Criteria
