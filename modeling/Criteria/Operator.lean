import Criteria.Arithmetic

/-!
# Operators

The fixed catalogue of operators. Each has a name under which trees are written, a precedence, an
associativity, a number of operands and a place relative to them. Dialects give operators other
spellings; nothing else about them changes.
-/

namespace Criteria

/-- An operator of the catalogue. -/
inductive Operator where
  | count
  | countDistinct
  | not
  | modulo
  | multiply
  | divide
  | add
  | subtract
  | concat
  | greater
  | greaterOrEqual
  | less
  | lessOrEqual
  | isIn
  /-- Whether the second text is a part of the first. -/
  | contains
  | startsWith
  | endsWith
  | equals
  | notEquals
  | and
  | or
  /-- A choice by a condition. -/
  | conditional
  /-- A name for a value. -/
  | named
  deriving DecidableEq, Repr, Inhabited

/-- Which of two neighbouring operators of one precedence comes first. -/
inductive Associativity where
  | left
  | right
  deriving DecidableEq, Repr

/-- Where an operator stands relative to its operands. -/
inductive Placement where
  /-- `a op b` -/
  | between
  /-- `op a` -/
  | before
  /-- `op(a, b)` -/
  | call
  deriving DecidableEq, Repr

namespace Operator

/-- All operators, the tightest first. -/
def catalogue : List Operator :=
  [count, countDistinct, not, modulo, multiply, divide, add, subtract, concat, greater,
    greaterOrEqual, less, lessOrEqual, isIn, contains, startsWith, endsWith, equals, notEquals, and,
    or, conditional, named]

/-- The name under which an operator is written in trees. -/
def name : Operator → String
  | count => "count"
  | countDistinct => "count_distinct"
  | not => "!"
  | modulo => "%"
  | multiply => "*"
  | divide => "/"
  | add => "+"
  | subtract => "-"
  | concat => "concat"
  | greater => ">"
  | greaterOrEqual => ">="
  | less => "<"
  | lessOrEqual => "<="
  | isIn => "in"
  | contains => "substring"
  | startsWith => "startsWith"
  | endsWith => "endsWith"
  | equals => "=="
  | notEquals => "!="
  | and => "&&"
  | or => "||"
  | conditional => "if"
  | named => "as"

/-- The precedence; an operator with a higher one binds tighter. -/
def precedence : Operator → Nat
  | count | countDistinct => 150
  | not => 140
  | modulo => 125
  | multiply | divide => 120
  | add | subtract => 110
  | concat | greater | greaterOrEqual | less | lessOrEqual | isIn | contains | startsWith
  | endsWith => 90
  | equals | notEquals => 80
  | and => 40
  | or => 30
  | conditional => 20
  | named => 10

/-- The associativity; only negation is grouped to the right. -/
def associativity : Operator → Associativity
  | not => .right
  | _ => .left

/-- The number of operands. -/
def arity : Operator → Nat
  | count | countDistinct | not => 1
  | conditional => 3
  | _ => 2

/-- The place of an operator in the text of a tree. -/
def placement : Operator → Placement
  | not => .before
  | count | countDistinct | concat | contains | startsWith | endsWith | conditional => .call
  | _ => .between

/-- The operator with the given name. -/
def ofName? (name : String) : Option Operator := catalogue.find? fun op => op.name == name

/-- Whether an operator that comes next stays above `top` on the stack of waiting operators instead
of letting it go first. -/
def bindsTighterThan (next top : Operator) : Bool :=
  top.precedence < next.precedence ||
    (next.precedence == top.precedence && top.associativity == .right)

/-- Whether the operator compares its operands, so that rows that a join repeats would show. -/
def isComparison : Operator → Bool
  | equals | notEquals | greater | greaterOrEqual | less | lessOrEqual | isIn | contains
  | startsWith | endsWith => true
  | _ => false

/-- The arithmetic operation of an operator. -/
def arithmetic? : Operator → Option Arithmetic
  | add => some .add
  | subtract => some .subtract
  | multiply => some .multiply
  | divide => some .divide
  | modulo => some .modulo
  | _ => none

/-- The comparison by order of an operator. -/
def comparison? : Operator → Option Comparison
  | greater => some .greater
  | greaterOrEqual => some .greaterOrEqual
  | less => some .less
  | lessOrEqual => some .lessOrEqual
  | _ => none

theorem mem_catalogue (op : Operator) : op ∈ catalogue := by cases op <;> decide

theorem ofName?_name (op : Operator) : ofName? op.name = some op := by cases op <;> decide

theorem arity_of_before {op : Operator} (h : op.placement = .before) : op.arity = 1 := by
  cases op <;> simp_all [placement, arity]

theorem arity_of_between {op : Operator} (h : op.placement = .between) : op.arity = 2 := by
  cases op <;> simp_all [placement, arity]

end Operator

end Criteria
