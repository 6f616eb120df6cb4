import Criteria.Proofs.Query.Steps

/-!
# Membership in what is no list

`x in y` is `x == y` if `y` is no list: always in evaluation (`evaluate_isIn`), and in compilation
unless one side is the literal null (`isIn_eq_equals`). With null, equality is a test of the other
side, while membership compares with a null of the query language (`compile_isIn_null`).
-/

namespace Criteria

open Query Evaluation

/-- A value is in what is no list if it is equal to it. -/
theorem Evaluation.member_of_not_list {v w : Value} (h : ∀ items, w ≠ .list items) :
    member v w = (v == w) := by
  cases w with
  | list items => exact absurd rfl (h items)
  | _ => rfl

theorem Term.evaluate_isIn (document : Option Value) (x : Term) {y : Term}
    (h : ∀ items, y.evaluate document ≠ .ok (.list items)) :
    (Term.apply .isIn [x, y]).evaluate document = (Term.apply .equals [x, y]).evaluate document := by
  rw [Term.evaluate, Term.evaluate, Operator.evaluate_pair rfl (by decide),
    Operator.evaluate_pair rfl (by decide)]
  cases x.evaluate document with
  | error e => rfl
  | ok a =>
    cases hy : y.evaluate document with
    | error e => rfl
    | ok w =>
      rw [hy] at h
      have hmember : member a w = (a == w) :=
        member_of_not_list fun items hw => h items (congrArg Except.ok hw)
      simp only [ok_bind, applyPair, hmember]

section

variable {σ ν ε : Type} (b : Backend σ ν ε)

/-- Membership in what is no literal list compares directly. -/
theorem Query.membership_of_not_list (x : Term) {y : Term} (h : ∀ items, y ≠ .literal (.list items))
    (compileLeft compileRight : Option ValueType → Compiling σ ν (Compiled ε)) :
    membership b .isIn x y compileLeft compileRight = (do
      let (l, r) ← pair b .isIn x y compileLeft compileRight
      call (b.equal l r)) := by
  unfold membership
  split
  · next items => exact absurd rfl (h items)
  · rfl

/-- Equality of two sides of which neither is null compares directly. -/
theorem Query.equality_of_not_null {x y : Term} (hx : x ≠ .literal .null) (hy : y ≠ .literal .null)
    (compileLeft compileRight : Option ValueType → Compiling σ ν (Compiled ε)) :
    equality b .equals x y compileLeft compileRight = (do
      let (l, r) ← pair b .equals x y compileLeft compileRight
      call (b.equal l r)) := by
  rw [ne_eq, ← Term.isNullLiteral_iff, Bool.not_eq_true] at hx hy
  simp only [equality, hx, hy]

theorem Term.compile_isIn [DecidableEq ν] {x y : Term} (hlist : ∀ items, y ≠ .literal (.list items))
    (hx : x ≠ .literal .null) (hy : y ≠ .literal .null) (target : Option ValueType) :
    (Term.apply .isIn [x, y]).compile b target = (Term.apply .equals [x, y]).compile b target := by
  rw [Term.compile_apply, Term.compile_apply, Operator.compile_pair, Operator.compile_pair]
  simp only [compilePair]
  rw [membership_of_not_list b x hlist, equality_of_not_null b hx hy]
  rfl

end

/-- **Membership in what is no list is equality**, in evaluation and, if neither side is the literal
null, in compilation. -/
theorem isIn_eq_equals (x y : Term) :
    (∀ document, (∀ items, y.evaluate document ≠ .ok (.list items)) →
      (Term.apply .isIn [x, y]).evaluate document =
        (Term.apply .equals [x, y]).evaluate document) ∧
    ((∀ items, y ≠ .literal (.list items)) → x ≠ .literal .null → y ≠ .literal .null →
      ∀ {σ ν ε : Type} [DecidableEq ν] (b : Backend σ ν ε) (target : Option ValueType),
        (Term.apply .isIn [x, y]).compile b target =
          (Term.apply .equals [x, y]).compile b target) :=
  ⟨fun document h => x.evaluate_isIn document h,
    fun hlist hx hy _ _ _ _ b target => Term.compile_isIn b hlist hx hy target⟩

/-- So `a in 1` is `a == 1`. -/
theorem isIn_eq_equals_one :
    (Term.apply .isIn [.reference ⟨[], "a"⟩, .literal (.integer 1)]).evaluate none =
      (Term.apply .equals [.reference ⟨[], "a"⟩, .literal (.integer 1)]).evaluate none ∧
    (Term.apply .isIn [.reference ⟨[], "a"⟩, .literal (.integer 1)]).compile Backend.naming none =
      (Term.apply .equals [.reference ⟨[], "a"⟩, .literal (.integer 1)]).compile Backend.naming
        none := by
  obtain ⟨hevaluate, hcompile⟩ := isIn_eq_equals (.reference ⟨[], "a"⟩) (.literal (.integer 1))
  exact ⟨hevaluate none (by simp [Term.evaluate]),
    hcompile (by simp) (by simp) (by simp) Backend.naming none⟩

/-- With null on the right side, `a == null` is a test for null, but `a in null` a comparison. -/
theorem compile_isIn_null :
    ((Term.apply .equals [.reference ⟨[], "a"⟩, .literal .null]).compile Backend.naming none
        ⟨(), {}, 0⟩).1 = .ok ⟨"is_null", false⟩ ∧
    ((Term.apply .isIn [.reference ⟨[], "a"⟩, .literal .null]).compile Backend.naming none
        ⟨(), {}, 0⟩).1 = .ok ⟨"equal", false⟩ :=
  ⟨rfl, rfl⟩

end Criteria
