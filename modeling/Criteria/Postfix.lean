import Criteria.Dialect.Basic
import Criteria.Literal

/-!
# From tokens to trees by way of postfix order

`Postfix.reorder` puts the tokens of an expression into postfix order, in which every operator
follows its operands. Operators, methods and open brackets wait on a stack until what belongs to
them has been written. `Postfix.fold` builds the tree from the sequence with a stack of operands.

* An operator between operands first lets every waiting operator go that binds at least as tightly;
  one in front of its operand lets nothing go.
* A method is stacked above its bracket and leaves when the bracket closes, if its arguments, which
  the separators count, are as many as it takes.
-/

namespace Criteria

namespace Postfix

/-- An element of a sequence in postfix order. -/
inductive Item where
  /-- An operand or the word `null`. -/
  | value (t : Token TokenKind)
  | operator (op : Operator)
  deriving DecidableEq, Repr

/-- The text of an element. -/
def Item.render : Item → String
  | value t => t.text
  | operator op => op.name

/-- What waits on the stack. -/
inductive Waiting where
  | bracket (t : Token TokenKind)
  | operator (op : Operator)
  /-- A method that is being called: its arguments so far and the offset of its name. -/
  | method (op : Operator) (arguments offset : Nat)
  deriving DecidableEq, Repr

/-- The operators that leave the stack, in order, and what stays on it. -/
abbrev Released := List Operator × List Waiting

/-- One more operator in front of those released. -/
def Released.cons (op : Operator) (r : Released) : Released := (op :: r.1, r.2)

/-- Releases the operators on top that do not let `op` go first. -/
def release (op : Operator) : List Waiting → Released
  | .operator top :: stack =>
    if op.bindsTighterThan top then ([], .operator top :: stack)
    else (release op stack).cons top
  | stack => ([], stack)

/-- Releases all operators above the innermost bracket or method. -/
def releaseAll : List Waiting → Released
  | .operator op :: stack => (releaseAll stack).cons op
  | stack => ([], stack)

/-- Releases what a closing bracket ends, a method with its bracket included. -/
def close (t : Token TokenKind) : List Waiting → Except SyntaxError Released
  | [] => .error (.unbalancedBracket t.text t.start)
  | .bracket _ :: stack => .ok ([], stack)
  | .operator op :: stack => return (← close t stack).cons op
  | .method op arguments offset :: stack => do
    if arguments ≠ op.arity then
      throw (.argumentCount op.name op.arity arguments offset)
    return (← close t stack).cons op

/-- Counts one more argument of the method on top of the stack. -/
def nextArgument (t : Token TokenKind) (r : Released) : Except SyntaxError Released :=
  match r.2 with
  | .method op arguments offset :: stack => .ok (r.1, .method op (arguments + 1) offset :: stack)
  | _ => .error (.misplacedSeparator t.start)

/-- Releases everything at the end of the tokens; no bracket may be open. -/
def drain : List Waiting → Except SyntaxError (List Operator)
  | [] => .ok []
  | .operator op :: stack => return op :: (← drain stack)
  | .method op _ _ :: stack => return op :: (← drain stack)
  | .bracket t :: _ => .error (.unbalancedBracket t.text t.start)

/-- The operator that a token spells. -/
def lookUp (d : Dialect) (t : Token TokenKind) : Except SyntaxError Operator :=
  match d.operator? t.text t.kind with
  | some op => .ok op
  | none => .error (.unknownOperator t.text t.start)

/-- Operators as elements of a sequence. -/
def items (ops : List Operator) : List Item := ops.map .operator

/-- Puts the tokens behind what already waits on a stack into postfix order. -/
def reorderFrom (d : Dialect) : List Waiting → List (Token TokenKind) →
    Except SyntaxError (List Item)
  | stack, [] => return items (← drain stack)
  | stack, t :: ts =>
    match t.kind with
    | .operand | .null => return .value t :: (← reorderFrom d stack ts)
    | .unaryOperator => do
      let op ← lookUp d t
      reorderFrom d (.operator op :: stack) ts
    | .binaryOperator => do
      let op ← lookUp d t
      let (released, stack) := release op stack
      return items released ++ (← reorderFrom d (.operator op :: stack) ts)
    | .method => do
      let op ← lookUp d t
      match ts with
      | [] => throw (.missingMethodBracket t.text t.start)
      | bracket :: ts =>
        if bracket.kind = .bracketOpen then
          reorderFrom d (.method op 1 t.start :: .bracket bracket :: stack) ts
        else throw (.missingMethodBracket t.text t.start)
    | .bracketOpen => reorderFrom d (.bracket t :: stack) ts
    | .bracketClose => do
      let (released, stack) ← close t stack
      return items released ++ (← reorderFrom d stack ts)
    | .separator => do
      let (released, stack) ← nextArgument t (releaseAll stack)
      return items released ++ (← reorderFrom d stack ts)

/-- Puts tokens into postfix order. -/
def reorder (d : Dialect) (tokens : List (Token TokenKind)) : Except SyntaxError (List Item) :=
  reorderFrom d [] tokens

/-- The term that an operand stands for: null, a literal, or else a reference. -/
def resolve (t : Token TokenKind) : Except SyntaxError Term :=
  if t.kind = .null then .ok (.literal .null)
  else
    match Literal.classify t.text with
    | some v => .ok (.literal v)
    | none =>
      match Term.reference? t.text with
      | some r => .ok r
      | none => .error (.unexpectedInput t.start t.text)

/-- Puts one element on a stack of operands, the last one on top. -/
def push (stack : List Term) : Item → Except SyntaxError (List Term)
  | .value t => return (← resolve t) :: stack
  | .operator op => do
    if stack.length < op.arity then throw (.missingOperand op.name)
    let operation ← Operation.of? op (stack.take op.arity).reverse
    return operation.toTerm :: stack.drop op.arity

/-- The operation that is left alone on the stack. -/
def single : List Term → Except SyntaxError Operation
  | [] => .error (.noOperation "empty expression")
  | [.apply op operands] => .ok ⟨op, operands⟩
  | [t] =>
    let text := t.render
    .error (.noOperation s!"'{text}' is not an operation")
  | stack => .error (.noOperation s!"{stack.length} operands left without an operator")

/-- Builds the tree of a sequence in postfix order. -/
def fold (sequence : List Item) : Except SyntaxError Operation := do
  single (← sequence.foldlM push [])

end Postfix

namespace Dialect

/-- Parses an expression. -/
def parse (d : Dialect) (input : String) : Except SyntaxError Operation := do
  Postfix.fold (← Postfix.reorder d (← d.tokenize input))

end Dialect

end Criteria
