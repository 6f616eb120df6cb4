import Criteria.Proofs.Expression.Balance

/-!
# Leaves of trees

A tree that comes of folding has at every node as many operands as the operator takes
(`Term.Complete`), and its leaves are what the operands of the expression stand for, in their order
(`leaves_of_parse`). `Term.induct` is induction on trees.
-/

namespace Criteria

open Postfix

mutual

/-- The leaves of a tree from left to right. -/
def Term.leaves : Term → List Term
  | .literal v => [.literal v]
  | .reference path => [.reference path]
  | .external handle => [.external handle]
  | .apply _ operands => Term.leavesList operands

/-- The leaves of several trees. -/
def Term.leavesList : List Term → List Term
  | [] => []
  | t :: ts => t.leaves ++ Term.leavesList ts

end

mutual

/-- Whether every operator of a tree has as many operands as it takes. -/
def Term.Complete : Term → Prop
  | .literal _ | .reference _ | .external _ => True
  | .apply op operands => operands.length = op.arity ∧ Term.CompleteList operands

/-- Whether every operator of several trees has as many operands as it takes. -/
def Term.CompleteList : List Term → Prop
  | [] => True
  | t :: ts => t.Complete ∧ Term.CompleteList ts

end

namespace Term

mutual

/-- Induction on trees. -/
@[elab_as_elim] theorem induct {P : Term → Prop} (literal : ∀ v, P (.literal v))
    (reference : ∀ path, P (.reference path)) (external : ∀ handle, P (.external handle))
    (apply : ∀ op operands, (∀ t ∈ operands, P t) → P (.apply op operands)) : ∀ t, P t
  | .literal v => literal v
  | .reference path => reference path
  | .external handle => external handle
  | .apply op operands => apply op operands (induct_list literal reference external apply operands)

theorem induct_list {P : Term → Prop} (literal : ∀ v, P (.literal v))
    (reference : ∀ path, P (.reference path)) (external : ∀ handle, P (.external handle))
    (apply : ∀ op operands, (∀ t ∈ operands, P t) → P (.apply op operands)) :
    ∀ ts : List Term, ∀ t ∈ ts, P t
  | [], _, h => by cases h
  | u :: ts, t, h => by
    have hu := induct literal reference external apply u
    have hts := induct_list literal reference external apply ts
    rcases List.mem_cons.1 h with rfl | h
    · exact hu
    · exact hts t h

end

/-- Induction on trees with the leaves taken together. -/
@[elab_as_elim] theorem induction {P : Term → Prop} (leaf : ∀ v, v.leaves = [v] → P v)
    (apply : ∀ op operands, (∀ t ∈ operands, P t) → P (.apply op operands)) : ∀ t, P t :=
  induct (fun _ => leaf _ rfl) (fun _ => leaf _ rfl) (fun _ => leaf _ rfl) apply

@[simp] theorem leavesList_nil : leavesList [] = [] := rfl

@[simp] theorem leavesList_cons (t : Term) (ts : List Term) :
    leavesList (t :: ts) = t.leaves ++ leavesList ts := rfl

@[simp] theorem leavesList_append (ts us : List Term) :
    leavesList (ts ++ us) = leavesList ts ++ leavesList us := by
  induction ts with
  | nil => rfl
  | cons t ts ih => simp [ih]

@[simp] theorem leaves_apply (op : Operator) (operands : List Term) :
    (apply op operands).leaves = leavesList operands := rfl

theorem leavesList_eq (ts : List Term) : leavesList ts = ts.flatMap leaves := by
  induction ts with
  | nil => rfl
  | cons t ts ih => simp [ih]

theorem completeList_iff {ts : List Term} : CompleteList ts ↔ ∀ t ∈ ts, t.Complete := by
  induction ts with
  | nil => simp [CompleteList]
  | cons t ts ih => simp [CompleteList, ih]

/-- A leaf has no operands. -/
theorem leaves_of_resolve {t : Token TokenKind} {v : Term} (h : resolve t = .ok v) :
    v.leaves = [v] ∧ v.Complete := by
  cases v with
  | apply op operands => exact absurd h (resolve_ne_apply t op operands)
  | _ => exact ⟨rfl, trivial⟩

end Term

open Term

/-! ### The leaves of a phrase -/

theorem operands_append (ts us : List (Token TokenKind)) :
    operands (ts ++ us) = operands ts ++ operands us := List.filter_append ts us

theorem operands_cons_of_value {t : Token TokenKind} (h : t.kind = .operand ∨ t.kind = .null)
    (ts : List (Token TokenKind)) : operands (t :: ts) = t :: operands ts := by
  simp [operands, h]

theorem operands_cons_of_ne {t : Token TokenKind} (h₁ : t.kind ≠ .operand) (h₂ : t.kind ≠ .null)
    (ts : List (Token TokenKind)) : operands (t :: ts) = operands ts := by
  simp [operands, h₁, h₂]

section

variable {d : Dialect}

mutual

/-- The operands of a phrase stand for the leaves of its tree. -/
theorem Phrase.resolve_operands : ∀ e : Phrase, e.WellFormed d →
    (operands e.tokens).map resolve = e.term.leaves.map Except.ok
  | .value t v, ⟨hk, hr⟩ => by
    rw [Phrase.tokens, operands_cons_of_value hk, Phrase.term, (leaves_of_resolve hr).1]
    simp [operands, hr]
  | .before t op e, ⟨ht, he⟩ => by
    rw [Phrase.tokens, operands_cons_of_ne (by simp [ht.1]) (by simp [ht.1]), e.resolve_operands he]
    simp [Phrase.term]
  | .between l t op r, ⟨hl, ht, hr⟩ => by
    rw [Phrase.tokens, operands_append, operands_cons_of_ne (by simp [ht.1]) (by simp [ht.1]),
      List.map_append, l.resolve_operands hl, r.resolve_operands hr]
    simp [Phrase.term]
  | .call m op o as c, ⟨hm, ho, has, _, hc⟩ => by
    rw [Phrase.tokens, operands_cons_of_ne (by simp [hm.1]) (by simp [hm.1]),
      operands_cons_of_ne (by simp [ho]) (by simp [ho]), operands_append,
      operands_cons_of_ne (by simp [hc]) (by simp [hc]), List.map_append,
      as.resolve_operands has]
    simp [Phrase.term, operands]
  | .bracketed o e c, ⟨ho, he, hc⟩ => by
    rw [Phrase.tokens, operands_cons_of_ne (by simp [ho]) (by simp [ho]), operands_append,
      operands_cons_of_ne (by simp [hc]) (by simp [hc]), List.map_append, e.resolve_operands he]
    simp [Phrase.term, operands]

theorem Arguments.resolve_operands : ∀ as : Arguments, as.WellFormed d →
    (operands as.tokens).map resolve = (leavesList as.terms).map Except.ok
  | .one e, he => by
    rw [Arguments.tokens, e.resolve_operands he]
    simp [Arguments.terms]
  | .more as s e, ⟨has, hs, he⟩ => by
    rw [Arguments.tokens, operands_append, operands_cons_of_ne (by simp [hs]) (by simp [hs]),
      List.map_append, as.resolve_operands has, e.resolve_operands he]
    simp [Arguments.terms]

end

end

/-! ### The leaves of what is parsed -/

/-- One element keeps trees complete, and adds a leaf if it is an operand. -/
theorem leaves_of_push {i : Item} {stack stack' : List Term} (h : push stack i = .ok stack') :
    (leavesList stack'.reverse).map Except.ok =
      (leavesList stack.reverse).map Except.ok ++ (values [i]).map resolve ∧
    (CompleteList stack → CompleteList stack') := by
  obtain ⟨t, v, rfl, hv, rfl⟩ | ⟨op, operands, below, rfl, hlen, rfl, rfl⟩ := push_cases h
  · obtain ⟨hleaves, hcomplete⟩ := leaves_of_resolve hv
    exact ⟨by simp [hleaves, values, hv], fun hstack => ⟨hcomplete, hstack⟩⟩
  · refine ⟨by simp [values], fun hstack => ?_⟩
    rw [completeList_iff] at hstack ⊢
    refine List.forall_mem_cons.2 ⟨⟨hlen, completeList_iff.2 fun u hu => ?_⟩, fun u hu => ?_⟩
    · exact hstack u (List.mem_append_left _ (List.mem_reverse.2 hu))
    · exact hstack u (List.mem_append_right _ hu)

theorem leaves_of_foldlM_push {sequence : List Item} {stack stack' : List Term}
    (h : sequence.foldlM push stack = .ok stack') :
    (leavesList stack'.reverse).map Except.ok =
      (leavesList stack.reverse).map Except.ok ++ (values sequence).map resolve ∧
    (CompleteList stack → CompleteList stack') := by
  induction sequence generalizing stack with
  | nil =>
    cases h
    simp [values]
  | cons i sequence ih =>
    rw [List.foldlM_cons] at h
    obtain ⟨mid, hp, h⟩ := bind_eq_ok_iff.1 h
    obtain ⟨hleaves, hcomplete⟩ := ih h
    obtain ⟨hleaves', hcomplete'⟩ := leaves_of_push hp
    refine ⟨?_, hcomplete ∘ hcomplete'⟩
    have hvalues : values (i :: sequence) = values [i] ++ values sequence := by
      cases i <;> rfl
    rw [hleaves, hleaves', hvalues, List.map_append, List.append_assoc]

/-- **The leaves of a parsed tree are what the operands of the text stand for.** -/
theorem leaves_of_parse {d : Dialect} (hd : d.ArityMatched) {text : String} {o : Operation}
    (h : d.parse text = .ok o) :
    o.toTerm.Complete ∧ ∃ ts, d.tokenize text = .ok ts ∧
      (operands ts).map resolve = o.toTerm.leaves.map Except.ok := by
  obtain ⟨ts, hts, h⟩ := bind_eq_ok_iff.1 h
  obtain ⟨sequence, hs, h⟩ := bind_eq_ok_iff.1 h
  obtain ⟨hleaves, hcomplete⟩ := leaves_of_foldlM_push (fold_eq_ok_iff.1 h)
  obtain ⟨-, hvalues⟩ := reorderFrom_spec hd (show Seated [] from trivial) hs
  refine ⟨(hcomplete trivial).1, ts, hts, ?_⟩
  rw [← hvalues]
  simpa using hleaves.symm

end Criteria
