import Criteria.FieldPath
import Criteria.Operator
import Criteria.SyntaxError
import Criteria.Value.Basic

/-!
# Expression trees

A term is a literal, a reference to a field, an expression that only a query backend knows, or an
operator applied to terms. An `Operation` is what a whole expression has to be: an operator with its
operands. `Operation.of?` checks the number of operands; `Operation` itself does not, so that trees
can be put together by hand as well.

`Term.render` writes a tree with all brackets and under the names of the catalogue.
-/

namespace Criteria

/-- A node of an expression tree. -/
inductive Term where
  | literal (v : Value)
  | reference (path : FieldPath)
  /-- An expression of the backend, known by its number. -/
  | external (handle : Nat)
  | apply (op : Operator) (operands : List Term)
  deriving Repr, Inhabited

namespace Term

/-- Whether a term is the literal null. -/
def isNullLiteral : Term → Bool
  | literal .null => true
  | _ => false

/-- Whether a term is a literal. -/
def isLiteral : Term → Bool
  | literal _ => true
  | _ => false

/-- The reference to the path that a text names. -/
def reference? (text : String) : Option Term := (FieldPath.parse? text).map reference

mutual

/-- Equality of terms. -/
def eqv : Term → Term → Bool
  | literal a, literal b => a == b
  | reference a, reference b => a == b
  | external a, external b => a == b
  | apply f as, apply g bs => f == g && eqvList as bs
  | _, _ => false

/-- Equality of lists of terms. -/
def eqvList : List Term → List Term → Bool
  | [], [] => true
  | a :: as, b :: bs => eqv a b && eqvList as bs
  | _, _ => false

end

instance : BEq Term := ⟨eqv⟩

mutual

theorem eqv_iff : ∀ s t : Term, eqv s t = true ↔ s = t
  | literal _, t => by cases t <;> simp [eqv]
  | reference _, t => by cases t <;> simp [eqv]
  | external _, t => by cases t <;> simp [eqv]
  | apply f as, t => by
    cases t <;> simp [eqv]
    exact fun _ => eqvList_iff as _

theorem eqvList_iff : ∀ ss ts : List Term, eqvList ss ts = true ↔ ss = ts
  | [], [] => by simp [eqvList]
  | [], _ :: _ => by simp [eqvList]
  | _ :: _, [] => by simp [eqvList]
  | s :: ss, t :: ts => by simp [eqvList, eqv_iff s t, eqvList_iff ss ts]

end

instance : LawfulBEq Term where
  eq_of_beq h := (eqv_iff _ _).1 h
  rfl := (eqv_iff _ _).2 rfl

instance : DecidableEq Term := fun s t => decidable_of_iff _ (eqv_iff s t)

/-- Writes an operator around its operands: between two, before one, or else as a call. -/
def renderApplied (op : Operator) (operands : List String) : String :=
  match op.placement, operands with
  | .between, [left, right] => "(" ++ left ++ " " ++ op.name ++ " " ++ right ++ ")"
  | .before, [operand] => op.name ++ operand
  | _, operands => op.name ++ "(" ++ Text.join "," operands ++ ")"

mutual

/-- Writes a term with all brackets. -/
def render : Term → String
  | literal v => v.render
  | reference path => path.render
  | external handle => "#" ++ toString handle
  | apply op operands => renderApplied op (renderList operands)

/-- Writes each of several terms. -/
def renderList : List Term → List String
  | [] => []
  | t :: ts => render t :: renderList ts

end

end Term

/-- An operator with its operands. -/
structure Operation where
  operator : Operator
  operands : List Term
  deriving DecidableEq, Repr, Inhabited

namespace Operation

/-- The operation as a node of a tree. -/
def toTerm (o : Operation) : Term := .apply o.operator o.operands

/-- The operation with the given operands, if they are as many as the operator takes. -/
def of? (op : Operator) (operands : List Term) : Except SyntaxError Operation :=
  if operands.length < op.arity then .error (.missingOperand op.name)
  else if op.arity < operands.length then
    .error (.noOperation s!"'{op.name}' takes {op.arity} operands, got {operands.length}")
  else .ok ⟨op, operands⟩

/-- Writes an operation with all brackets. -/
def render (o : Operation) : String := o.toTerm.render

theorem of?_eq_ok {op : Operator} {operands : List Term} (h : operands.length = op.arity) :
    of? op operands = .ok ⟨op, operands⟩ := by
  simp [of?, h]

end Operation

end Criteria
