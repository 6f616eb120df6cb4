import Criteria.Literal
import Criteria.Term

/-!
# Evaluation

The value of a term, given a document for its references or none. Operands are evaluated from left
to right, except that `&&` and `||` leave out the right side when the left one decides, a condition
selects one branch, and the name in an alias is never evaluated.

Null is false for logic, equal to everything for order, and zero for arithmetic. Arithmetic goes
through decimals of 96 bits. On integers the decimal is truncated, and the result has the type of the
first operand that is not null; once a double takes part, the decimals are those of doubles where
they can hold operands and result, so that `0.1 + 0.2` is `0.3`.
-/

namespace Criteria

/-- A cause for which evaluation fails. -/
inductive EvalError where
  /-- The exact result does not fit its type. -/
  | overflow (op : Operator)
  | divisionByZero (op : Operator)
  | typeMismatch (op : Operator) (reason : String)
  /-- A reference without a document. -/
  | unboundReference (path : FieldPath)
  /-- A segment of a path meets a value without fields, of the type `found`. -/
  | notAnObject (path : FieldPath) (segment : String) (found : ValueType)
  /-- An expression that only a backend knows. -/
  | external (handle : Nat)
  /-- An operator with a wrong number of operands. -/
  | malformed (op : Operator) (found : Nat)
  deriving DecidableEq, Repr

/-- The wording of an error. -/
def EvalError.message : EvalError → String
  | overflow op => s!"arithmetic overflow in '{op.name}'"
  | divisionByZero op => s!"division by zero in '{op.name}'"
  | typeMismatch op reason => s!"type error in '{op.name}': {reason}"
  | unboundReference path =>
    s!"unbound reference '{path.render}': no document to resolve it against"
  | notAnObject path segment found =>
    s!"cannot resolve '{segment}' of '{path.render}' on a {found.name} value"
  | external handle => s!"opaque expression #{handle} cannot be evaluated"
  | malformed op found =>
    s!"malformed operation '{op.name}': expected {op.arity} operands, got {found}"

namespace Evaluation

/-! ### References -/

/-- Walks down the fields of a value. Null, or a field that is missing, ends the walk with null. -/
def descend (path : FieldPath) : Value → List String → Except EvalError Value
  | v, [] => .ok v
  | .null, _ :: _ => .ok .null
  | .object fields, segment :: rest =>
    match Record.get? fields segment with
    | some v => descend path v rest
    | none => .ok .null
  | v, segment :: _ => .error (.notAnObject path segment v.type)

/-- The value of a reference in a document. -/
def resolve (document : Option Value) (path : FieldPath) : Except EvalError Value :=
  match document with
  | none => .error (.unboundReference path)
  | some v => descend path v path.segments

/-! ### Operators on values -/

/-- A value as an operand of logic. -/
def truth (op : Operator) : Value → Except EvalError Bool
  | .boolean b => .ok b
  | .null => .ok false
  | v => .error (.typeMismatch op s!"expected boolean, got {v.type.name}")

/-- A value as a condition; a number is false when it is zero. -/
def condition (op : Operator) : Value → Except EvalError Bool
  | .boolean b => .ok b
  | .null => .ok false
  | .integer n => .ok (n != 0)
  | .long n => .ok (n != 0)
  | .double x => .ok (!x.isZero)
  | v => .error (.typeMismatch op s!"cannot use {v.type.name} as a condition")

/-- A comparison of two values; null is equal to everything. -/
def compareValues (op : Operator) (c : Comparison) (a b : Value) : Except EvalError Value :=
  if a.isNull || b.isNull then .ok (.boolean (c.holds .eq))
  else
    match a.order? b with
    | some o => .ok (.boolean (c.holds o))
    | none =>
      .error (.typeMismatch op s!"cannot compare {a.type.name} with {b.type.name}")

/-- The type of an arithmetic result: double if either side is a double, else that of the first
operand that is not null, else integer. -/
def resultType (op : Operator) (a b : Value) : Except EvalError ValueType :=
  match [a, b].find? fun v => !v.isNull && !v.type.isNumeric with
  | some v => .error (.typeMismatch op s!"expected number, got {v.type.name}")
  | none =>
    if a.type = .double ∨ b.type = .double then .ok .double
    else if !a.isNull then .ok a.type
    else if !b.isNull then .ok b.type
    else .ok .integer

/-- A number as a double; null is zero. -/
def asDouble : Value → Binary64
  | .integer n => .ofInt n.toInt
  | .long n => .ofInt n.toInt
  | .double x => x
  | _ => .zero

/-- A number as an integer; null is zero. -/
def asInt : Value → Int
  | .integer n => n.toInt
  | .long n => n.toInt
  | _ => 0

/-- Arithmetic on integers with a result of the given type. -/
def integral (op : Operator) (f : Arithmetic) (type : ValueType) (a b : Int) :
    Except EvalError Value :=
  if f.divides && b == 0 then .error (.divisionByZero op)
  else
    let fitted := do
      let result ← f.onInts? a b
      if type = .long then (Literal.toLong? result).map Value.long
      else (Literal.toInteger? result).map Value.integer
    match fitted with
    | some v => .ok v
    | none => .error (.overflow op)

/-- Arithmetic on values. -/
def calculate (op : Operator) (f : Arithmetic) (a b : Value) : Except EvalError Value := do
  let type ← resultType op a b
  if type = .double then return .double (f.onDoubles (asDouble a) (asDouble b))
  else integral op f type (asInt a) (asInt b)

/-- The number of different values. -/
def distinctCount (items : List Value) : Nat := items.eraseDups.length

/-- The number of elements of a value, or of different ones; a value that is no list counts once
and null not at all. -/
def countOf (distinct : Bool) : Value → Value
  | .null => .long 0
  | .list items => .long (Int64.ofNat (if distinct then distinctCount items else items.length))
  | _ => .long 1

/-- Whether a value is in a list, or equal to a value that is no list. -/
def member (v : Value) : Value → Bool
  | .list items => items.contains v
  | w => v == w

/-- An operator that needs the values of both its operands. -/
def applyPair (op : Operator) (a b : Value) : Except EvalError Value :=
  let texts (test : List Char → List Char → Bool) : Except EvalError Value :=
    .ok (.boolean (test b.asText.toList a.asText.toList))
  match op with
  | .equals => .ok (.boolean (a == b))
  | .notEquals => .ok (.boolean (a != b))
  | .isIn => .ok (.boolean (member a b))
  | .concat => .ok (.string (a.asText ++ b.asText))
  | .contains => texts Text.hasPart
  | .startsWith => texts List.isPrefixOf
  | .endsWith => texts List.isSuffixOf
  | op =>
    match op.comparison?, op.arithmetic? with
    | some c, _ => compareValues op c a b
    | none, some f => calculate op f a b
    | none, none => .error (.malformed op 2)

end Evaluation

open Evaluation in
mutual

/-- The value of a term. -/
def Term.evaluate (document : Option Value) : Term → Except EvalError Value
  | .literal v => .ok v
  | .reference path => resolve document path
  | .external handle => .error (.external handle)
  | .apply op operands => Operator.evaluate document op operands

/-- The value of an operator applied to terms. -/
def Operator.evaluate (document : Option Value) : Operator → List Term → Except EvalError Value
  | .and, [left, right] => do
    if ← truth .and (← left.evaluate document) then
      return .boolean (← truth .and (← right.evaluate document))
    else return .boolean false
  | .or, [left, right] => do
    if ← truth .or (← left.evaluate document) then return .boolean true
    else return .boolean (← truth .or (← right.evaluate document))
  | .not, [operand] => do return .boolean !(← truth .not (← operand.evaluate document))
  | .conditional, [test, yes, no] => do
    if ← condition .conditional (← test.evaluate document) then yes.evaluate document
    else no.evaluate document
  | .count, [operand] => return countOf false (← operand.evaluate document)
  | .countDistinct, [operand] => return countOf true (← operand.evaluate document)
  | .named, [operand, _] => operand.evaluate document
  | op, [left, right] =>
    if op.arity = 2 then do
      let a ← left.evaluate document
      let b ← right.evaluate document
      applyPair op a b
    else .error (.malformed op 2)
  | op, operands => .error (.malformed op operands.length)

end

/-- The value of an operation, with or without a document. -/
def Operation.evaluate (document : Option Value) (o : Operation) : Except EvalError Value :=
  o.operator.evaluate document o.operands

end Criteria
