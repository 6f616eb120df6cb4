import Criteria.Proofs.Query.Recording
import Mathlib.Tactic.Tauto

/-!
# When duplicates are to be eliminated

A join can repeat rows, and a comparison across it lets the repeated rows through. A compilation
that succeeds asks for the elimination of duplicates exactly if it compares something that joined
(`distinct_mem_calls_iff`).

The compiler finds out by a counter of joined references. `Notes` says what a step does with the
counter and with the demand; a step is noted with its operands taken together (`Notes.bind`).
-/

namespace Criteria

open Query

/-! ### What is compared across a join -/

/-- The operands of an operation that are compiled. The pattern of an operator on texts and the name
in an alias are not, since they become texts, and neither is the null of a test for null. -/
def Operator.compiled (op : Operator) (operands : List Term) : List Term :=
  match op with
  | .contains | .startsWith | .endsWith | .named => operands.take 1
  | .equals | .notEquals => operands.filter fun t => !t.isNullLiteral
  | _ => operands

namespace Term

/-- Whether a term has a reference through another record outside all aggregates in it. -/
inductive Joins : Term → Prop where
  | reference {path : FieldPath} (h : 2 ≤ path.segments.length) : Joins (.reference path)
  | apply {op : Operator} {operands : List Term} {t : Term} (hop : op ≠ .count ∧ op ≠ .countDistinct)
    (ht : t ∈ op.compiled operands) (h : t.Joins) : Joins (.apply op operands)

/-- Whether a term has a comparison with an operand that joins. -/
inductive ComparesJoin : Term → Prop where
  | here {op : Operator} {operands : List Term} {t : Term} (hop : op.isComparison = true)
    (ht : t ∈ op.compiled operands) (h : t.Joins) : ComparesJoin (.apply op operands)
  | nested {op : Operator} {operands : List Term} {t : Term} (ht : t ∈ op.compiled operands)
    (h : t.ComparesJoin) : ComparesJoin (.apply op operands)

theorem joins_reference_iff {path : FieldPath} :
    (Term.reference path).Joins ↔ 2 ≤ path.segments.length :=
  ⟨fun | .reference h => h, .reference⟩

theorem not_joins_literal {v : Value} : ¬ (Term.literal v).Joins := nofun

theorem not_comparesJoin_literal {v : Value} : ¬ (Term.literal v).ComparesJoin := nofun

end Term

/-- Whether an operand that joins makes the operation join. -/
def Operator.Joins (op : Operator) (operands : List Term) : Prop :=
  (op ≠ .count ∧ op ≠ .countDistinct) ∧ ∃ t ∈ op.compiled operands, t.Joins

/-- Whether an operation is a comparison with an operand that joins, or has one below it. -/
def Operator.ComparesJoin (op : Operator) (operands : List Term) : Prop :=
  ∃ t ∈ op.compiled operands, t.ComparesJoin ∨ op.isComparison = true ∧ t.Joins

theorem Term.joins_apply_iff {op : Operator} {operands : List Term} :
    (Term.apply op operands).Joins ↔ op.Joins operands :=
  ⟨fun | .apply hop ht h => ⟨hop, _, ht, h⟩, fun ⟨hop, _, ht, h⟩ => .apply hop ht h⟩

theorem Term.comparesJoin_apply_iff {op : Operator} {operands : List Term} :
    (Term.apply op operands).ComparesJoin ↔ op.ComparesJoin operands := by
  constructor
  · rintro (⟨hop, ht, h⟩ | ⟨ht, h⟩)
    · exact ⟨_, ht, .inr ⟨hop, h⟩⟩
    · exact ⟨_, ht, .inl h⟩
  · rintro ⟨t, ht, h | ⟨hop, h⟩⟩
    · exact .nested ht h
    · exact .here hop ht h

/-- Which of two operands are compiled does not matter to what null has not. -/
theorem Operator.exists_mem_compiled_pair {op : Operator}
    (hop : op ∉ [.contains, .startsWith, .endsWith, .named]) {P : Term → Prop}
    (hnull : ¬ P (.literal .null)) {left right : Term} :
    (∃ t ∈ op.compiled [left, right], P t) ↔ P left ∨ P right := by
  have hboth : (∃ t ∈ [left, right], P t) ↔ P left ∨ P right := by simp
  have hfilter : (∃ t ∈ [left, right].filter fun t => !t.isNullLiteral, P t) ↔
      ∃ t ∈ [left, right], P t := by
    refine exists_congr fun t => ?_
    rw [List.mem_filter, and_assoc, and_congr_right_iff]
    refine fun _ => ⟨fun h => h.2, fun h => ⟨?_, h⟩⟩
    rw [Bool.not_eq_true', Bool.eq_false_iff, ne_eq, Term.isNullLiteral_iff]
    rintro rfl
    exact hnull h
  rw [← hboth]
  cases op
  case equals | notEquals => exact hfilter
  case contains | startsWith | endsWith | named => exact absurd (by decide) hop
  all_goals exact Iff.rfl

namespace Query

variable {σ ν ε α β : Type}

/-! ### Counter and demand -/

/-- Whether between two sessions references were counted just in the case `J`, and the elimination
of duplicates asked for just in the case `D`. -/
structure Session.Noted (J D : Prop) (s s' : Session (Observed σ ν) ν) : Prop where
  joins_le : s.joins ≤ s'.joins
  joins_lt_iff : s.joins < s'.joins ↔ J
  distinct_iff : .distinct ∈ s'.backend.log ↔ .distinct ∈ s.backend.log ∨ D

theorem Session.Noted.trans {J J' D D' : Prop} {s s₁ s' : Session (Observed σ ν) ν}
    (h : s.Noted J D s₁) (h' : s₁.Noted J' D' s') : s.Noted (J ∨ J') (D ∨ D') s' where
  joins_le := Nat.le_trans h.joins_le h'.joins_le
  joins_lt_iff := by
    have hle := h.joins_le
    have hle' := h'.joins_le
    rw [← h.joins_lt_iff, ← h'.joins_lt_iff]
    omega
  distinct_iff := by rw [h'.distinct_iff, h.distinct_iff, or_assoc]

/-- Whether a step that succeeds notes `J` and `D` and has a result with `Q`. -/
def Notes (J D : Prop) (Q : α → Prop) (m : Compiling (Observed σ ν) ν α) : Prop :=
  ∀ ⦃s a s'⦄, m s = (.ok a, s') → s.Noted J D s' ∧ Q a

section

variable {J J' D D' : Prop} {Q Q' : α → Prop}

theorem Notes.bind {R : β → Prop} {m : Compiling (Observed σ ν) ν α}
    {f : α → Compiling (Observed σ ν) ν β} (hm : Notes J D Q m)
    (hf : ∀ a, Q a → Notes J' D' R (f a)) : Notes (J ∨ J') (D ∨ D') R (m >>= f) := by
  intro s b s' h
  obtain ⟨a, s₁, hm', hf'⟩ := bind_eq_ok_iff.1 h
  obtain ⟨hnoted, ha⟩ := hm hm'
  obtain ⟨hnoted', hb⟩ := hf a ha hf'
  exact ⟨hnoted.trans hnoted', hb⟩

theorem Notes.congr {m : Compiling (Observed σ ν) ν α} (h : Notes J D Q m) (hJ : J ↔ J')
    (hD : D ↔ D') (hQ : ∀ a, Q a → Q' a) : Notes J' D' Q' m := by
  intro s a s' hm
  obtain ⟨hnoted, ha⟩ := h hm
  exact ⟨propext hJ ▸ propext hD ▸ hnoted, hQ a ha⟩

/-- A step behind one that notes nothing. -/
theorem Notes.silent_bind {R : β → Prop} {m : Compiling (Observed σ ν) ν α}
    {f : α → Compiling (Observed σ ν) ν β} (hm : Notes False False Q m)
    (hf : ∀ a, Q a → Notes J D R (f a)) : Notes J D R (m >>= f) :=
  (hm.bind hf).congr (iff_of_eq (false_or J)) (iff_of_eq (false_or D)) fun _ => id

/-- A step with one behind it that notes nothing. -/
theorem Notes.bind_silent {R : β → Prop} {m : Compiling (Observed σ ν) ν α}
    {f : α → Compiling (Observed σ ν) ν β} (hm : Notes J D Q m)
    (hf : ∀ a, Q a → Notes False False R (f a)) : Notes J D R (m >>= f) :=
  (hm.bind hf).congr (iff_of_eq (or_false J)) (iff_of_eq (or_false D)) fun _ => id

theorem notes_pure {a : α} (h : Q a) :
    Notes False False Q (pure a : Compiling (Observed σ ν) ν α) := by
  rintro s b s' ⟨⟩
  exact ⟨⟨Nat.le_refl _, by simp, by simp⟩, h⟩

theorem notes_throw (e : CompileError) :
    Notes J D Q (throw e : Compiling (Observed σ ν) ν α) := by
  rintro s b s' ⟨⟩

/-- A call is noted as nothing. -/
theorem notes_call {event : Except CompileError α → Event ν} (h : ∀ r, event r ≠ .distinct)
    (c : Call σ α) : Notes False False (fun _ => True) (call (observe none event c)) := by
  intro s a s' hs
  obtain rfl : _ = s' := congrArg Prod.snd hs
  refine ⟨⟨Nat.le_refl _, iff_of_false (Nat.lt_irrefl _) id, ?_⟩, trivial⟩
  change _ ∈ s.backend.log ++ [event (c s.backend.state).1] ↔ _
  simp [Ne.symm (h _)]

theorem notes_other (c : Call σ α) :
    Notes False False (fun _ => True) (call (observe (ν := ν) none (fun _ => .other) c)) :=
  notes_call (by simp) c

theorem notes_typeOf (b : Backend (Observed σ ν) ν ε) (e : ε) :
    Notes False False (fun _ => True) (typeOf b e) := by
  rintro s a s' ⟨⟩
  exact ⟨⟨Nat.le_refl _, by simp, by simp⟩, trivial⟩

theorem notes_eliminateDuplicates (b : Backend σ ν ε) :
    Notes False True (fun _ => True) (eliminateDuplicates (b.observed none)) := by
  rintro s a s' ⟨⟩
  refine ⟨⟨Nat.le_refl _, by simp, ?_⟩, trivial⟩
  change _ ∈ s.backend.log ++ [.distinct] ↔ _
  simp

/-- What a counted reference notes is told by its result. -/
theorem Notes.counted {P : Prop} {m : Compiling (Observed σ ν) ν (Compiled ε)}
    (h : Notes False False (fun c => c.joined = true ↔ P) m) :
    Notes P False (fun c => c.joined = true ↔ P) (counted m) := by
  have hnext (c : Compiled ε) (hc : c.joined = true ↔ P) :
      Notes P False (fun c => c.joined = true ↔ P) (do
        if c.joined then setJoins ((← countJoins) + 1)
        return c : Compiling (Observed σ ν) ν (Compiled ε)) := by
    split
    · next hj =>
      rintro s a s' ⟨⟩
      exact ⟨⟨Nat.le_succ _, iff_of_true (Nat.lt_succ_self _) (hc.1 hj), by simp⟩, hc⟩
    · next hj =>
      have hpure : Notes False False (fun c => c.joined = true ↔ P)
          (pure c : Compiling (Observed σ ν) ν (Compiled ε)) := notes_pure hc
      exact hpure.congr (iff_of_false id fun hP => hj (hc.2 hP)) Iff.rfl fun _ => id
  exact h.silent_bind hnext

theorem Notes.noticed {m : Compiling (Observed σ ν) ν ε} {Q : ε → Prop} (h : Notes J D Q m) :
    Notes J D (fun c => c.joined = true ↔ J) (noticed m) := by
  intro s c s' hc
  obtain ⟨_, _, ⟨⟩, hc⟩ := bind_eq_ok_iff.1 hc
  obtain ⟨e, s₁, hm, ⟨⟩⟩ := bind_eq_ok_iff.1 hc
  obtain ⟨hnoted, -⟩ := h hm
  exact ⟨hnoted, by simpa using hnoted.joins_lt_iff⟩

theorem Notes.uncounted {m : Compiling (Observed σ ν) ν α} (h : Notes J D Q m) :
    Notes False D Q (uncounted m) := by
  intro s a s' ha
  obtain ⟨_, _, ⟨⟩, ha⟩ := bind_eq_ok_iff.1 ha
  obtain ⟨a, s₁, hm, ⟨⟩⟩ := bind_eq_ok_iff.1 ha
  obtain ⟨hnoted, hQ⟩ := h hm
  exact ⟨⟨Nat.le_refl _, by simp, hnoted.distinct_iff⟩, hQ⟩

end

/-! ### The steps of compilation -/

theorem notes_flagJoins (b : Backend σ ν ε) (op : Operator) (operands : List (Compiled ε)) :
    Notes False (op.isComparison = true ∧ ∃ c ∈ operands, c.joined = true) (fun _ => True)
      (flagJoins (b.observed none) op operands) := by
  rw [flagJoins_eq]
  split
  · next h => exact (notes_eliminateDuplicates b).congr Iff.rfl (iff_of_true trivial h) fun _ => id
  · next h =>
    have hpure : Notes False False (fun _ => True) (pure () : Compiling (Observed σ ν) ν Unit) :=
      notes_pure trivial
    exact hpure.congr Iff.rfl (iff_of_false id h) fun _ => id

theorem notes_evaluated (r : Except EvalError α) :
    Notes False False (fun _ => True) (evaluated r : Compiling (Observed σ ν) ν α) := by
  cases r with
  | ok a => exact notes_pure trivial
  | error e => exact notes_throw _

theorem notes_constant (b : Backend σ ν ε) (v : Value) (target : Option ValueType) :
    Notes False False (fun _ => True) (constant (b.observed none) v target) := by
  cases v <;> exact notes_other _

theorem notes_constants (b : Backend σ ν ε) (items : List Value) (target : Option ValueType) :
    Notes False False (fun _ => True) (items.mapM fun v => constant (b.observed none) v target) := by
  induction items with
  | nil => exact notes_pure trivial
  | cons v items ih =>
    rw [List.mapM_cons]
    exact (notes_constant b v target).silent_bind fun _ _ => ih.silent_bind fun _ _ =>
      notes_pure trivial

section

variable [DecidableEq ν] (b : Backend σ ν ε)

theorem notes_walk (fields : List String) (node : ν) :
    Notes False False (fun _ => True) (walk (b.observed none) node fields) := by
  induction fields generalizing node with
  | nil => exact notes_pure trivial
  | cons field rest ih =>
    have hlookUp (e : Edge ν) :
        Notes False False (fun _ => True) (lookUp e : Compiling (Observed σ ν) ν (Option ν)) := by
      rintro s a s' ⟨⟩
      exact ⟨⟨Nat.le_refl _, by simp, by simp⟩, trivial⟩
    have hremember (e : Edge ν) (target : ν) :
        Notes False False (fun _ => True) (remember e target : Compiling (Observed σ ν) ν Unit) := by
      rintro s a s' ⟨⟩
      exact ⟨⟨Nat.le_refl _, by simp, by simp⟩, trivial⟩
    rw [walk_cons]
    refine (hlookUp _).silent_bind fun next? _ => ?_
    cases next? with
    | some next => exact ih next
    | none =>
      have hcreate : Notes False False (fun _ => True)
          (call ((b.observed none).createEdge node field .left)) := by
        rw [Backend.observed_createEdge]
        exact notes_call (by simp) _
      exact hcreate.silent_bind fun next _ => (hremember _ next).silent_bind fun _ _ => ih next

theorem notes_resolvePath (path : FieldPath) :
    Notes False False (fun c => c.joined = true ↔ 2 ≤ path.segments.length)
      (resolvePath (b.observed none) path) := by
  have hjoined (e : ε) : (Compiled.mk e !path.parents.isEmpty).joined = true ↔
      2 ≤ path.segments.length := by
    cases hp : path.parents <;> simp [FieldPath.segments, hp]
  have hread (node : ν) : Notes False False (fun _ => True)
      (call ((b.observed none).readField node path.leaf)) := by
    rw [Backend.observed_readField]
    exact notes_call (by simp) _
  exact (notes_walk b path.parents b.root).silent_bind fun node _ =>
    (hread node).silent_bind fun e _ => notes_pure (hjoined e)

end

/-- Whether the compilation of a term notes what is in the term. -/
def NotesTerm (t : Term) (m : Option ValueType → Compiling (Observed σ ν) ν (Compiled ε)) : Prop :=
  ∀ target, Notes t.Joins t.ComparesJoin (fun c => c.joined = true ↔ t.Joins) (m target)

section

variable {b : Backend σ ν ε} {left right : Term}
  {compileLeft compileRight : Option ValueType → Compiling (Observed σ ν) ν (Compiled ε)}
  (hl : NotesTerm left compileLeft) (hr : NotesTerm right compileRight)

include hl

/-- One operand is compared if the operator is a comparison. -/
theorem notes_operand {R : β → Prop} (op : Operator) {f : Compiled ε → Compiling (Observed σ ν) ν β}
    (hf : ∀ c, Notes False False R (f c)) :
    Notes left.Joins (left.ComparesJoin ∨ op.isComparison = true ∧ left.Joins) R (do
      let c ← compileLeft none
      flagJoins (b.observed none) op [c]
      f c) := by
  have hflag (c : Compiled ε) (hc : c.joined = true ↔ left.Joins) :
      Notes False (op.isComparison = true ∧ left.Joins) R (do
        flagJoins (b.observed none) op [c]
        f c) := by
    rw [← hc]
    exact ((notes_flagJoins b op [c]).bind_silent fun _ _ => hf c).congr Iff.rfl (by simp) fun _ => id
  exact ((hl none).bind hflag).congr (iff_of_eq (or_false _)) Iff.rfl fun _ => id

theorem notes_nullTest (op : Operator) :
    Notes left.Joins (left.ComparesJoin ∨ op.isComparison = true ∧ left.Joins) (fun _ => True)
      (nullTest (b.observed none) op compileLeft) :=
  notes_operand hl op fun c => (notes_typeOf _ c.expr).silent_bind fun _ _ => by
    split <;> exact notes_other _

include hr

theorem notes_both : Notes (left.Joins ∨ right.Joins) (left.ComparesJoin ∨ right.ComparesJoin)
    (fun c => (c.1.joined = true ↔ left.Joins) ∧ (c.2.joined = true ↔ right.Joins))
    (both (b.observed none) left right compileLeft compileRight) := by
  have hpure {l r : Compiled ε} (h : (l.joined = true ↔ left.Joins) ∧ (r.joined = true ↔ right.Joins)) :
      Notes False False (fun c : Compiled ε × Compiled ε =>
        (c.1.joined = true ↔ left.Joins) ∧ (c.2.joined = true ↔ right.Joins))
        (pure (l, r) : Compiling (Observed σ ν) ν (Compiled ε × Compiled ε)) := notes_pure h
  unfold both
  split
  · -- a literal on the left is compiled last
    exact ((hr none).bind fun r hr' => (notes_typeOf _ r.expr).silent_bind fun target _ =>
      (hl target).bind_silent fun l hl' => hpure ⟨hl', hr'⟩).congr or_comm or_comm fun _ => id
  · exact (hl none).bind fun l hl' => (notes_typeOf _ l.expr).silent_bind fun target _ =>
      (hr target).bind_silent fun r hr' => hpure ⟨hl', hr'⟩
  · exact (hl none).bind fun l hl' => (hr none).bind_silent fun r hr' => hpure ⟨hl', hr'⟩

/-- Two operands are compared if the operator is a comparison. -/
theorem notes_pair (op : Operator) : Notes (left.Joins ∨ right.Joins)
    ((left.ComparesJoin ∨ right.ComparesJoin) ∨ op.isComparison = true ∧ (left.Joins ∨ right.Joins))
    (fun _ => True) (pair (b.observed none) op left right compileLeft compileRight) := by
  have hflag (c : Compiled ε × Compiled ε)
      (hc : (c.1.joined = true ↔ left.Joins) ∧ (c.2.joined = true ↔ right.Joins)) :
      Notes False (op.isComparison = true ∧ (left.Joins ∨ right.Joins)) (fun _ => True) (do
        flagJoins (b.observed none) op [c.1, c.2]
        return (c.1.expr, c.2.expr)) := by
    rw [← hc.1, ← hc.2]
    exact ((notes_flagJoins b op [c.1, c.2]).bind_silent fun _ _ =>
      notes_pure trivial).congr Iff.rfl (by simp) fun _ => id
  exact ((notes_both hl hr).bind hflag).congr (iff_of_eq (or_false _)) Iff.rfl fun _ => id

/-- With null on one side an equality is a test of the other side, and null does not join. -/
theorem notes_equality (op : Operator) : Notes (left.Joins ∨ right.Joins)
    ((left.ComparesJoin ∨ right.ComparesJoin) ∨ op.isComparison = true ∧ (left.Joins ∨ right.Joins))
    (fun _ => True) (equality (b.observed none) op left right compileLeft compileRight) := by
  have hnull {t : Term} (h : t.isNullLiteral = true) : ¬ t.Joins ∧ ¬ t.ComparesJoin := by
    rw [Term.isNullLiteral_iff.1 h]
    exact ⟨Term.not_joins_literal, Term.not_comparesJoin_literal⟩
  unfold equality
  split
  · next hnl hnr =>
    exact (notes_other b.alwaysTrue).congr (by simp [hnull hnl, hnull hnr])
      (by simp [hnull hnl, hnull hnr]) fun _ => id
  · next hnl _ =>
    exact (notes_nullTest hr op).congr (by simp [hnull hnl]) (by simp [hnull hnl]) fun _ => id
  · next _ hnr =>
    exact (notes_nullTest hl op).congr (by simp [hnull hnr]) (by simp [hnull hnr]) fun _ => id
  · exact (notes_pair hl hr op).bind_silent fun _ _ => notes_other _

/-- The items of a list are constants, which do not join. -/
theorem notes_membership (op : Operator) : Notes (left.Joins ∨ right.Joins)
    ((left.ComparesJoin ∨ right.ComparesJoin) ∨ op.isComparison = true ∧ (left.Joins ∨ right.Joins))
    (fun _ => True) (membership (b.observed none) op left right compileLeft compileRight) := by
  unfold membership
  split
  · next items =>
    refine (notes_operand hl op fun c => (notes_typeOf _ c.expr).silent_bind fun target _ =>
      (notes_constants b items target).silent_bind fun _ _ => notes_other _).congr ?_ ?_ fun _ => id
    · simp [Term.not_joins_literal]
    · simp [Term.not_joins_literal, Term.not_comparesJoin_literal]
  · exact (notes_pair hl hr op).bind_silent fun _ _ => notes_other _

omit hl hr in
/-- What two operands note is noted for their operation. -/
theorem Notes.pair {op : Operator} {m : Compiling (Observed σ ν) ν α}
    (hop : op ∉ [.contains, .startsWith, .endsWith, .named, .count, .countDistinct])
    (h : Notes (left.Joins ∨ right.Joins) ((left.ComparesJoin ∨ right.ComparesJoin) ∨
      op.isComparison = true ∧ (left.Joins ∨ right.Joins)) (fun _ => True) m) :
    Notes (op.Joins [left, right]) (op.ComparesJoin [left, right]) (fun _ => True) m := by
  simp only [List.mem_cons, List.not_mem_nil, or_false, not_or] at hop
  have hop' : op ∉ [.contains, .startsWith, .endsWith, .named] := by simp [hop]
  refine h.congr ?_ ?_ fun _ => id
  · rw [Operator.Joins, Operator.exists_mem_compiled_pair hop' Term.not_joins_literal]
    simp [hop]
  · rw [Operator.ComparesJoin, Operator.exists_mem_compiled_pair hop'
      (by simp [Term.not_joins_literal, Term.not_comparesJoin_literal])]
    tauto

omit hl hr in
/-- What the first operand notes is noted for an operation of which only that one is compiled. -/
theorem Notes.first {op : Operator} {m : Compiling (Observed σ ν) ν α}
    (hop : op ∈ [.contains, .startsWith, .endsWith, .named])
    (h : Notes left.Joins (left.ComparesJoin ∨ op.isComparison = true ∧ left.Joins) (fun _ => True)
      m) :
    Notes (op.Joins [left, right]) (op.ComparesJoin [left, right]) (fun _ => True) m := by
  simp only [List.mem_cons, List.not_mem_nil, or_false] at hop
  refine h.congr ?_ ?_ fun _ => id <;>
    rcases hop with rfl | rfl | rfl | rfl <;>
      simp [Operator.Joins, Operator.ComparesJoin, Operator.compiled]

theorem notes_compilePair (op : Operator) :
    Notes (op.Joins [left, right]) (op.ComparesJoin [left, right]) (fun _ => True)
      (compilePair (b.observed none) op left right compileLeft compileRight) := by
  unfold compilePair
  cases op
  case equals => exact .pair (by decide) (notes_equality hl hr .equals)
  case notEquals =>
    exact .pair (by decide) ((notes_equality hl hr .notEquals).bind_silent fun _ _ => notes_other _)
  case isIn => exact .pair (by decide) (notes_membership hl hr .isIn)
  case contains | startsWith | endsWith =>
    exact .first (by decide) (notes_operand hl _ fun c =>
      (notes_evaluated _).silent_bind fun _ _ => notes_other _)
  case named =>
    refine .first (by decide) (((hl none).bind_silent fun c _ => ?_).congr Iff.rfl (by simp
      [Operator.isComparison]) fun _ => id)
    split
    · exact notes_other _
    · exact notes_throw _
  case count | countDistinct | not | conditional => exact notes_throw _
  all_goals exact .pair (by decide) ((notes_pair hl hr _).bind_silent fun _ _ => notes_other _)

end

/-- A count notes the comparisons below it, but not the joins. -/
theorem notes_compileCount {b : Backend σ ν ε} {operand : Term}
    {compileOperand : Option ValueType → Compiling (Observed σ ν) ν (Compiled ε)}
    (h : NotesTerm operand compileOperand) (distinct : Bool) :
    Notes False operand.ComparesJoin (fun _ => True)
      (compileCount (b.observed none) distinct compileOperand) := by
  rw [compileCount_eq]
  exact (h none).uncounted.bind_silent fun _ _ => notes_other _

variable [DecidableEq ν] (b : Backend σ ν ε)

theorem notes_operator (op : Operator) (operands : List Term)
    (h : ∀ t ∈ operands, NotesTerm t (t.compile (b.observed none))) :
    Notes (op.Joins operands) (op.ComparesJoin operands) (fun _ => True)
      (op.compile (b.observed none) operands) := by
  by_cases hfits : op.Fits operands
  case neg =>
    rw [Operator.compile_of_not_fits _ hfits]
    exact notes_throw _
  cases hfits with
  | not operand =>
    refine ((h operand (by simp) none).bind_silent fun c _ => notes_other (b.negation c.expr)).congr
      ?_ ?_ fun _ => id
    · simp [Operator.Joins, Operator.compiled]
    · simp [Operator.ComparesJoin, Operator.compiled, Operator.isComparison]
  | count operand =>
    refine (notes_compileCount (h operand (by simp)) false).congr ?_ ?_ fun _ => id
    · simp [Operator.Joins]
    · simp [Operator.ComparesJoin, Operator.compiled, Operator.isComparison]
  | countDistinct operand =>
    refine (notes_compileCount (h operand (by simp)) true).congr ?_ ?_ fun _ => id
    · simp [Operator.Joins]
    · simp [Operator.ComparesJoin, Operator.compiled, Operator.isComparison]
  | conditional test yes no =>
    refine ((h test (by simp) none).bind fun c _ =>
      (notes_both (h yes (by simp)) (h no (by simp))).bind_silent fun _ _ =>
        notes_other _).congr ?_ ?_ fun _ => id
    · simp [Operator.Joins, Operator.compiled]
    · simp [Operator.ComparesJoin, Operator.compiled, Operator.isComparison]
  | pair _ left right =>
    rw [Operator.compile_pair]
    exact notes_compilePair (h left (by simp)) (h right (by simp)) op

/-- **The compilation of a term notes what is in the term.** -/
theorem notesTerm_compile (t : Term) : NotesTerm t (t.compile (b.observed none)) := by
  induction t using Term.induct with
  | literal v =>
    intro target
    have h : Notes False False (fun c : Compiled ε => c.joined = true ↔ (Term.literal v).Joins)
        ((Term.literal v).compile (b.observed none) target) :=
      (notes_constant b v target).silent_bind fun _ _ => notes_pure (by simp [Term.not_joins_literal])
    exact h.congr (by simp [Term.not_joins_literal]) (by simp [Term.not_comparesJoin_literal])
      fun _ => id
  | reference path =>
    intro target
    rw [Term.compile_reference]
    refine (notes_resolvePath b path).counted.congr Term.joins_reference_iff.symm ?_ ?_
    · exact iff_of_false id nofun
    · exact fun _ h => h.trans Term.joins_reference_iff.symm
  | external handle =>
    intro target
    have h : Notes False False (fun c : Compiled ε => c.joined = true ↔ (Term.external handle).Joins)
        ((Term.external handle).compile (b.observed none) target) :=
      (notes_other _).silent_bind fun _ _ => notes_pure (iff_of_false (by simp) nofun)
    exact h.congr (iff_of_false id nofun) (iff_of_false id nofun) fun _ => id
  | apply op operands ih =>
    intro target
    rw [Term.compile_apply]
    exact (notes_operator b op operands ih).noticed.congr Term.joins_apply_iff.symm
      Term.comparesJoin_apply_iff.symm fun _ h => h.trans Term.joins_apply_iff.symm

end Query

open Query

variable {σ ν ε : Type} [DecidableEq ν]

/-- The calls that the compilation of a term makes. -/
def Term.calls (b : Backend σ ν ε) (t : Term) (target : Option ValueType) (s : Session σ ν) :
    List (Event ν) :=
  (t.compile (b.observed none) target ⟨⟨s.backend, []⟩, s.memo, s.joins⟩).2.backend.log

/-- **A compilation that succeeds asks for the elimination of duplicates just if it compares
something that joined.** -/
theorem distinct_mem_calls_iff (b : Backend σ ν ε) (t : Term) (target : Option ValueType)
    {s s' : Session σ ν} {c : Compiled ε} (h : t.compile b target s = (.ok c, s')) :
    .distinct ∈ t.calls b target s ↔ t.ComparesJoin := by
  have hplain := compile_observed b t target ⟨⟨s.backend, []⟩, s.memo, s.joins⟩
  have hok : (t.compile (b.observed none) target ⟨⟨s.backend, []⟩, s.memo, s.joins⟩).1 = .ok c :=
    (congrArg Prod.fst hplain).symm.trans (congrArg Prod.fst h)
  obtain ⟨hnoted, -⟩ := notesTerm_compile b t target (Prod.ext hok rfl)
  simpa [Term.calls] using hnoted.distinct_iff

/-- So it does for `a/b == 1`. -/
theorem distinct_mem_calls_equals :
    .distinct ∈ (Term.apply .equals [.reference ⟨["a"], "b"⟩, .literal (.integer 1)]).calls
      Backend.naming none ⟨(), {}, 0⟩ :=
  (distinct_mem_calls_iff Backend.naming _ none (s := ⟨(), {}, 0⟩) rfl).2
    (.here rfl (List.mem_cons_self) (.reference (Nat.le_refl 2)))

end Criteria
