import Criteria.Text.Basic

/-!
# Tokens

A token is a piece of the input with its category and the byte offset at which it starts. Scanners
work for any type of categories; the categories of expressions are `TokenKind`.
-/

namespace Criteria

/-- Categories that messages can name. -/
class Labelled (κ : Type) where
  /-- The name of a category in a message. -/
  label : κ → String

/-- The category of a token of an expression. -/
inductive TokenKind where
  /-- A literal or a reference to a field. -/
  | operand
  | null
  /-- An operator in front of its operand. -/
  | unaryOperator
  /-- An operator between its operands. -/
  | binaryOperator
  /-- An operator written as a call. -/
  | method
  | bracketOpen
  | bracketClose
  /-- The comma between arguments. -/
  | separator
  deriving DecidableEq, Repr, Inhabited

namespace TokenKind

/-- All categories. -/
def all : List TokenKind :=
  [operand, null, unaryOperator, binaryOperator, method, bracketOpen, bracketClose, separator]

/-- The name of a category in grammar descriptions and token listings. -/
def name : TokenKind → String
  | operand => "OPERAND"
  | null => "NULL"
  | unaryOperator => "UNARY_OPERATOR"
  | binaryOperator => "BINARY_OPERATOR"
  | method => "METHOD"
  | bracketOpen => "BRACKET_OPEN"
  | bracketClose => "BRACKET_CLOSE"
  | separator => "SEPARATOR"

/-- The category with the given name. -/
def ofName? (name : String) : Option TokenKind := all.find? fun k => k.name == name

theorem mem_all (k : TokenKind) : k ∈ all := by cases k <;> decide

theorem ofName?_name (k : TokenKind) : ofName? k.name = some k := by cases k <;> decide

instance : Labelled TokenKind where
  label
    | operand => "Operand"
    | null => "Null"
    | unaryOperator => "UnaryOperator"
    | binaryOperator => "BinaryOperator"
    | method => "Method"
    | bracketOpen => "BracketOpen"
    | bracketClose => "BracketClose"
    | separator => "Separator"

end TokenKind

/-- A piece of the input, its category and the byte offset at which it starts. -/
structure Token (κ : Type) where
  kind : κ
  text : String
  start : Nat
  deriving DecidableEq, Repr

namespace Token

variable {κ : Type}

/-- The number of bytes of the token. -/
def length (t : Token κ) : Nat := Text.byteLength t.text.toList

/-- The byte offset behind the token. -/
def stop (t : Token κ) : Nat := t.start + t.length

/-- One line that shows the span, the category and the text of a token. -/
def render (t : Token TokenKind) : String :=
  s!"{t.start}..{t.stop} {t.kind.name} '{t.text}'"

end Token

end Criteria
