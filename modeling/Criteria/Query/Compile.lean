import Criteria.Query.Backend

/-!
# Compiling terms into queries

`Term.compile` walks a term and calls the builders of a backend. Operands are compiled in order,
except that literals wait until the type of the other operand is known. Comparisons across a join
ask for the elimination of duplicates; whether an operand joins is told by a counter of the joined
references seen so far, in which those below an aggregate do not count.
-/

namespace Criteria.Query

/-- What changes during compilation: the backend, the edges created, and the number of joined
references outside aggregates. -/
structure Session (σ ν : Type) where
  backend : σ
  memo : EdgeMemo ν := {}
  joins : Nat := 0

/-- A step of compilation. -/
abbrev Compiling (σ ν α : Type) := ExceptT CompileError (StateM (Session σ ν)) α

/-- An expression, and whether the operand or one nested in it joined. -/
structure Compiled (ε : Type) where
  expr : ε
  joined : Bool

section

variable {σ ν ε α : Type}

/-- Makes a call of the backend a step of compilation. -/
def call (c : Call σ α) : Compiling σ ν α := fun s =>
  let (result, backend) := c s.backend
  (result, { s with backend })

/-- The declared type of an expression. -/
def typeOf (b : Backend σ ν ε) (e : ε) : Compiling σ ν (Option ValueType) := do
  return b.declaredType (← get).backend e

/-- Asks for the elimination of duplicates if an operand of a comparison joined. -/
def flagJoins (b : Backend σ ν ε) (op : Operator) (operands : List (Compiled ε)) :
    Compiling σ ν Unit :=
  if op.isComparison && operands.any (·.joined) then
    modify fun s => { s with backend := b.requireDistinct s.backend }
  else pure ()

/-- Walks from a node along fields, and creates the edges that are not there yet. -/
def walk [DecidableEq ν] (b : Backend σ ν ε) : ν → List String → Compiling σ ν ν
  | node, [] => pure node
  | node, field :: rest => do
    let edge : Edge ν := ⟨node, field, .left⟩
    match (← get).memo.get? edge with
    | some next => walk b next rest
    | none =>
      let next ← call (b.createEdge node field .left)
      modify fun s => { s with memo := s.memo.insert edge next }
      walk b next rest

/-- The attribute at the end of a path. -/
def resolvePath [DecidableEq ν] (b : Backend σ ν ε) (path : FieldPath) :
    Compiling σ ν (Compiled ε) := do
  let node ← walk b b.root path.parents
  let expr ← call (b.readField node path.leaf)
  return ⟨expr, !path.parents.isEmpty⟩

/-- A literal with the type that is asked for. -/
def constant (b : Backend σ ν ε) (v : Value) (target : Option ValueType) : Compiling σ ν ε :=
  match v with
  | .null => call (b.nullLiteral target)
  | v => call (b.literal v target)

/-- Compiles two operands from left to right, but a literal after the other operand and with its
type. -/
def both (b : Backend σ ν ε) (left right : Term)
    (compileLeft compileRight : Option ValueType → Compiling σ ν (Compiled ε)) :
    Compiling σ ν (Compiled ε × Compiled ε) := do
  match left.isLiteral, right.isLiteral with
  | true, false =>
    let r ← compileRight none
    let l ← compileLeft (← typeOf b r.expr)
    return (l, r)
  | false, true =>
    let l ← compileLeft none
    let r ← compileRight (← typeOf b l.expr)
    return (l, r)
  | _, _ =>
    let l ← compileLeft none
    let r ← compileRight none
    return (l, r)

/-- Compiles two operands; a comparison asks for the elimination of duplicates if one joined. -/
def pair (b : Backend σ ν ε) (op : Operator) (left right : Term)
    (compileLeft compileRight : Option ValueType → Compiling σ ν (Compiled ε)) :
    Compiling σ ν (ε × ε) := do
  let (l, r) ← both b left right compileLeft compileRight
  flagJoins b op [l, r]
  return (l.expr, r.expr)

/-- A test for null, or for emptiness if the operand is a collection. -/
def nullTest (b : Backend σ ν ε) (op : Operator)
    (compileOperand : Option ValueType → Compiling σ ν (Compiled ε)) : Compiling σ ν ε := do
  let c ← compileOperand none
  flagJoins b op [c]
  if ((← typeOf b c.expr).map (·.isCollection)).getD false then call (b.isEmpty c.expr)
  else call (b.isNull c.expr)

/-- Equality, which with the literal null on one side is a test of the other side, and with null on
both sides always holds. -/
def equality (b : Backend σ ν ε) (op : Operator) (left right : Term)
    (compileLeft compileRight : Option ValueType → Compiling σ ν (Compiled ε)) :
    Compiling σ ν ε := do
  match left.isNullLiteral, right.isNullLiteral with
  | true, true => call b.alwaysTrue
  | true, false => nullTest b op compileRight
  | false, true => nullTest b op compileLeft
  | false, false =>
    let (l, r) ← pair b op left right compileLeft compileRight
    call (b.equal l r)

/-- Membership in a literal list, whose items get the type of the left side; with any other right
side it is equality. -/
def membership (b : Backend σ ν ε) (op : Operator) (left right : Term)
    (compileLeft compileRight : Option ValueType → Compiling σ ν (Compiled ε)) :
    Compiling σ ν ε := do
  match right with
  | .literal (.list items) =>
    let c ← compileLeft none
    flagJoins b op [c]
    let target ← typeOf b c.expr
    call (b.inList c.expr (← items.mapM fun v => constant b v target))
  | _ =>
    let (l, r) ← pair b op left right compileLeft compileRight
    call (b.equal l r)

/-- The pattern of an operator on texts: the text with anything around it, behind it or in front of
it. -/
def likePattern (op : Operator) (text : String) : String :=
  match op with
  | .startsWith => text ++ "%"
  | .endsWith => "%" ++ text
  | _ => "%" ++ text ++ "%"

/-- The name in an alias: a path or a literal as text. -/
def aliasName? : Term → Option String
  | .reference path => some path.render
  | .literal .null => none
  | .literal v => some v.asText
  | _ => none

/-- A result of evaluation as a step of compilation. -/
def evaluated (r : Except EvalError α) : Compiling σ ν α :=
  match r with
  | .ok a => pure a
  | .error e => throw (.evaluation e)

/-- An operator of two operands. -/
def compilePair (b : Backend σ ν ε) (op : Operator) (left right : Term)
    (compileLeft compileRight : Option ValueType → Compiling σ ν (Compiled ε)) :
    Compiling σ ν ε := do
  let operands := pair b op left right compileLeft compileRight
  match op with
  | .equals => equality b op left right compileLeft compileRight
  | .notEquals => call (b.negation (← equality b op left right compileLeft compileRight))
  | .isIn => membership b op left right compileLeft compileRight
  | .contains | .startsWith | .endsWith =>
    let c ← compileLeft none
    flagJoins b op [c]
    let v ← evaluated (right.evaluate none)
    call (b.like c.expr (likePattern op v.asText))
  | .and =>
    let (l, r) ← operands
    call (b.conjunction l r)
  | .or =>
    let (l, r) ← operands
    call (b.disjunction l r)
  | .concat =>
    let (l, r) ← operands
    call (b.concat l r)
  | .named =>
    let c ← compileLeft none
    match aliasName? right with
    | some name => call (b.named c.expr name)
    | none => throw (.unsupported op.name)
  | op =>
    match op.comparison?, op.arithmetic? with
    | some c, _ =>
      let (l, r) ← operands
      call (b.compare c l r)
    | none, some f =>
      let (l, r) ← operands
      call (b.arithmetic f l r)
    | none, none => throw (.evaluation (.malformed op 2))

/-- A count; the joins below it do not count as joins of the operand around it. -/
def compileCount (b : Backend σ ν ε) (distinct : Bool)
    (compileOperand : Option ValueType → Compiling σ ν (Compiled ε)) : Compiling σ ν ε := do
  let before := (← get).joins
  let c ← compileOperand none
  modify fun s => { s with joins := before }
  call (b.count c.expr distinct)

end

end Criteria.Query

namespace Criteria

open Query

variable {σ ν ε : Type} [DecidableEq ν]

mutual

/-- Compiles a term, a literal with the type that is asked for. -/
def Term.compile (b : Backend σ ν ε) : Term → Option ValueType → Compiling σ ν (Compiled ε)
  | .literal v, target => do return ⟨← constant b v target, false⟩
  | .reference path, _ => do
    let c ← resolvePath b path
    if c.joined then modify fun s => { s with joins := s.joins + 1 }
    return c
  | .external handle, _ => do return ⟨← call (b.external handle), false⟩
  | .apply op operands, _ => do
    let before := (← get).joins
    let expr ← Operator.compile b op operands
    return ⟨expr, before < (← get).joins⟩

/-- Compiles an operator applied to terms. -/
def Operator.compile (b : Backend σ ν ε) : Operator → List Term → Compiling σ ν ε
  | .not, [operand] => do call (b.negation (← operand.compile b none).expr)
  | .count, [operand] => compileCount b false (operand.compile b)
  | .countDistinct, [operand] => compileCount b true (operand.compile b)
  | .conditional, [test, yes, no] => do
    let c ← test.compile b none
    let (l, r) ← both b yes no (yes.compile b) (no.compile b)
    call (b.conditional c.expr l.expr r.expr)
  | op, [left, right] => compilePair b op left right (left.compile b) (right.compile b)
  | op, operands => throw (.evaluation (.malformed op operands.length))

end

/-- Compiles an operation, with no joins seen so far. -/
def Operation.compile (b : Backend σ ν ε) (o : Operation) : Compiling σ ν ε := do
  modify fun s => { s with joins := 0 }
  o.operator.compile b o.operands

/-- Compiles terms one after the other with one counter of joins; a failure does not stop those that
follow. -/
def Query.compileEach (b : Backend σ ν ε) (ts : List Term) :
    StateM (Session σ ν) (List (Except CompileError ε)) := do
  modify fun s => { s with joins := 0 }
  ts.mapM fun t => ((·.expr) <$> t.compile b none).run

end Criteria
