import Criteria.Proofs.Query.Steps

/-!
# Operands by their places

An interpreter that keeps the operands of an operator in a list reaches them by their places in it.
`Operator.evaluateByIndex` and `Operator.compileByIndex` say for each operator which places it looks
at, once the number of operands is the right one. A look beyond the last operand has no result, and
then neither has the tree around it. There is no such look in any tree (`Term.evaluateByIndex_eq`,
`Term.compileByIndex_eq`), whatever the number of operands in it, and the results are those of
evaluation and compilation.

A list of operands is compiled by `compileAll`. Whoever asks for two results of two operands gets them
(`compileTwo_eq`).
-/

namespace Criteria

open Query Evaluation

/-- What stands at a place of a list, if the list goes so far and there is something. -/
def lookAt {α : Type} (results : List (Option α)) (i : Nat) : Option α := results[i]?.join

/-! ### Evaluation -/

/-- The value of an operator, with the results of its operands looked up by their places. -/
def Operator.evaluateByIndex (op : Operator) (results : List (Option (Except EvalError Value))) :
    Option (Except EvalError Value) :=
  if results.length ≠ op.arity then some (.error (.malformed op results.length))
  else
    match op with
    | .and => do
      let left ← lookAt results 0
      let right ← lookAt results 1
      some do
        if ← truth .and (← left) then return .boolean (← truth .and (← right))
        else return .boolean false
    | .or => do
      let left ← lookAt results 0
      let right ← lookAt results 1
      some do
        if ← truth .or (← left) then return .boolean true
        else return .boolean (← truth .or (← right))
    | .not => do
      let operand ← lookAt results 0
      some do return .boolean !(← truth .not (← operand))
    | .conditional => do
      let test ← lookAt results 0
      let yes ← lookAt results 1
      let no ← lookAt results 2
      some do if ← condition .conditional (← test) then yes else no
    | .count => do
      let operand ← lookAt results 0
      some do return countOf false (← operand)
    | .countDistinct => do
      let operand ← lookAt results 0
      some do return countOf true (← operand)
    | .named => lookAt results 0
    | op => do
      let left ← lookAt results 0
      let right ← lookAt results 1
      some do
        let a ← left
        let b ← right
        applyPair op a b

mutual

/-- The value of a term, with all operands looked up by their places. -/
def Term.evaluateByIndex (document : Option Value) : Term → Option (Except EvalError Value)
  | .literal v => some (.ok v)
  | .reference path => some (resolve document path)
  | .external handle => some (.error (.external handle))
  | .apply op operands => op.evaluateByIndex (Term.evaluateEachByIndex document operands)

/-- The values of several terms. -/
def Term.evaluateEachByIndex (document : Option Value) :
    List Term → List (Option (Except EvalError Value))
  | [] => []
  | t :: ts => t.evaluateByIndex document :: Term.evaluateEachByIndex document ts

end

theorem Operator.evaluateByIndex_eq (document : Option Value) (op : Operator) (operands : List Term) :
    op.evaluateByIndex (operands.map fun t => some (t.evaluate document)) =
      some (op.evaluate document operands) := by
  by_cases hfits : op.Fits operands
  case neg =>
    have hlength := mt Operator.fits_iff.2 hfits
    rw [Operator.evaluate_of_not_fits hfits]
    unfold Operator.evaluateByIndex
    rw [List.length_map, if_pos hlength]
  cases hfits with
  | not | count | countDistinct | conditional => rfl
  | pair harity left right => cases op <;> rfl

theorem Term.evaluateEachByIndex_eq (document : Option Value) (ts : List Term) :
    Term.evaluateEachByIndex document ts = ts.map (Term.evaluateByIndex document) := by
  induction ts with
  | nil => rfl
  | cons t ts ih => rw [evaluateEachByIndex, ih, List.map_cons]

/-- **Evaluation never looks beyond the operands.** -/
theorem Term.evaluateByIndex_eq (document : Option Value) (t : Term) :
    t.evaluateByIndex document = some (t.evaluate document) := by
  induction t using Term.induct with
  | literal | reference | external => rfl
  | apply op operands ih =>
    rw [evaluateByIndex, evaluateEachByIndex_eq, List.map_congr_left ih,
      Operator.evaluateByIndex_eq, evaluate]

/-! ### Operands in a list -/

namespace Query

section

variable {σ ν ε : Type} (b : Backend σ ν ε)

/-- An operand with what compiles it. -/
abbrev Operand (σ ν ε : Type) := Term × (Option ValueType → Compiling σ ν (Compiled ε))

/-- Compiles the operands from left to right but leaves out the literals, and notes the first type
that is declared for one. -/
def compileOthers : List (Operand σ ν ε) → Option ValueType →
    Compiling σ ν (List (Option (Compiled ε)) × Option ValueType)
  | [], target => pure ([], target)
  | (t, compile) :: rest, target => do
    if t.isLiteral then
      let (compiled, target) ← compileOthers rest target
      return (none :: compiled, target)
    else
      let c ← compile none
      let declared ← if target.isNone then typeOf b c.expr else pure target
      let (compiled, target) ← compileOthers rest declared
      return (some c :: compiled, target)

/-- Compiles the operands, the literals behind the others and with the type noted for those. -/
def compileAll (operands : List (Operand σ ν ε)) : Compiling σ ν (List (Compiled ε)) := do
  let (compiled, target) ← compileOthers b operands none
  (operands.zip compiled).mapM fun (operand, c?) =>
    match c? with
    | some c => pure c
    | none => operand.2 target

/-- The compiled operands if they are two; any other number is not supported. -/
def compileTwo (op : Operator) (operands : List (Operand σ ν ε)) :
    Compiling σ ν (Compiled ε × Compiled ε) := do
  match ← compileAll b operands with
  | [l, r] => return (l, r)
  | _ => throw (.unsupported op.name)

/-- A look at a declared type changes nothing. -/
theorem typeOf_bind {α : Type} (e : ε) (m : Compiling σ ν α) : (do let _ ← typeOf b e; m) = m := rfl

/-- **Two operands in a list have two results.** -/
theorem compileTwo_eq (op : Operator) (left right : Operand σ ν ε) :
    compileTwo b op [left, right] = both b left.1 right.1 left.2 right.2 := by
  obtain ⟨left, compileLeft⟩ := left
  obtain ⟨right, compileRight⟩ := right
  unfold compileTwo compileAll both
  cases hl : left.isLiteral <;> cases hr : right.isLiteral
  case false.false =>
    -- the types noted are for literals, and here is none
    simp only [compileOthers, hl, hr, Bool.false_eq_true, if_false, Option.isNone_none, if_true,
      bind_assoc, pure_bind]
    refine bind_congr fun l => Eq.trans (bind_congr fun declared => ?_) (typeOf_bind b l.expr _)
    refine bind_congr fun r => ?_
    cases declared with
    | none => exact typeOf_bind b r.expr _
    | some type => rfl
  all_goals simp [compileOthers, hl, hr, List.mapM_cons]

end

end Query

/-! ### Compilation -/

section

variable {σ ν ε : Type} [DecidableEq ν] (b : Backend σ ν ε)

omit [DecidableEq ν] in
/-- The compilation of an operator, with its operands and what compiles them looked up by their
places. -/
def Operator.compileByIndex (op : Operator) (operands : List Term)
    (compiled : List (Option (Option ValueType → Compiling σ ν (Compiled ε)))) :
    Option (Compiling σ ν ε) :=
  if operands.length ≠ op.arity then
    some (throw (.evaluation (.malformed op operands.length)))
  else
    match op with
    | .not => do
      let operand ← lookAt compiled 0
      some do call (b.negation (← operand none).expr)
    | .count => return compileCount b false (← lookAt compiled 0)
    | .countDistinct => return compileCount b true (← lookAt compiled 0)
    | .conditional => do
      let compileTest ← lookAt compiled 0
      let yes ← operands[1]?
      let no ← operands[2]?
      let compileYes ← lookAt compiled 1
      let compileNo ← lookAt compiled 2
      some do
        let c ← compileTest none
        let (l, r) ← compileTwo b .conditional [(yes, compileYes), (no, compileNo)]
        call (b.conditional c.expr l.expr r.expr)
    | op => do
      let left ← operands[0]?
      let right ← operands[1]?
      let compileLeft ← lookAt compiled 0
      let compileRight ← lookAt compiled 1
      some (compilePair b op left right compileLeft compileRight)

mutual

/-- The compilation of a term, with all operands looked up by their places. -/
def Term.compileByIndex : Term → Option (Option ValueType → Compiling σ ν (Compiled ε))
  | .apply op operands => do
    let expr ← op.compileByIndex b operands (Term.compileEachByIndex operands)
    some fun _ => noticed expr
  | .literal v => some ((Term.literal v).compile b)
  | .reference path => some ((Term.reference path).compile b)
  | .external handle => some ((Term.external handle).compile b)

/-- The compilations of several terms. -/
def Term.compileEachByIndex :
    List Term → List (Option (Option ValueType → Compiling σ ν (Compiled ε)))
  | [] => []
  | t :: ts => t.compileByIndex :: Term.compileEachByIndex ts

end

theorem Operator.compileByIndex_eq (op : Operator) (operands : List Term) :
    op.compileByIndex b operands (operands.map fun t => some (t.compile b)) =
      some (op.compile b operands) := by
  by_cases hfits : op.Fits operands
  case neg =>
    have hlength := mt Operator.fits_iff.2 hfits
    rw [Operator.compile_of_not_fits b hfits]
    unfold Operator.compileByIndex
    rw [if_pos hlength]
  cases hfits with
  | not | count | countDistinct =>
    rw [Operator.compile]
    rfl
  | conditional test yes no =>
    simp only [Operator.compile, ← compileTwo_eq b .conditional (yes, yes.compile b) (no, no.compile b)]
    rfl
  | pair harity left right =>
    rw [Operator.compile_pair]
    cases op <;> rfl

theorem Term.compileEachByIndex_eq (ts : List Term) :
    Term.compileEachByIndex b ts = ts.map (Term.compileByIndex b) := by
  induction ts with
  | nil => rfl
  | cons t ts ih => rw [compileEachByIndex, ih, List.map_cons]

/-- **Compilation never looks beyond the operands.** -/
theorem Term.compileByIndex_eq (t : Term) : t.compileByIndex b = some (t.compile b) := by
  induction t using Term.induct with
  | literal | reference | external => rfl
  | apply op operands ih =>
    rw [compileByIndex, compileEachByIndex_eq, List.map_congr_left ih, Operator.compileByIndex_eq]
    exact congrArg some (funext fun target => (compile_apply b op operands target).symm)

end

end Criteria
