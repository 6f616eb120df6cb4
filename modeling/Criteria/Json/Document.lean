import Criteria.Json.Basic
import Criteria.Literal

/-!
# Values and JSON documents

How documents become values and values documents. Integers take the narrowest type that holds them
and become doubles beyond 64 bits with a sign; identifiers, dates and times are written as strings,
and a double that is no number as null.
-/

namespace Criteria

/-- The value of a number of a document. -/
def JsonNumber.toValue : JsonNumber → Value
  | .integer n => (Literal.integral? n).getD (.double (.ofInt n))
  | .float x => .double x

namespace Value

mutual

/-- The value that a document stands for. -/
def ofJson : Json → Value
  | .null => .null
  | .bool b => .boolean b
  | .number n => n.toValue
  | .string s => .string s
  | .array items => .list (ofJsonItems items)
  | .object members => .object (ofJsonMembers members)

/-- The values of the items of an array. -/
def ofJsonItems : List Json → List Value
  | [] => []
  | j :: rest => ofJson j :: ofJsonItems rest

/-- The values of the members of an object. -/
def ofJsonMembers : List (String × Json) → List (String × Value)
  | [] => []
  | (name, j) :: rest => (name, ofJson j) :: ofJsonMembers rest

end

mutual

/-- The document that stands for a value. -/
def toJson : Value → Json
  | .null => .null
  | .boolean b => .bool b
  | .integer n => .number (.integer n.toInt)
  | .long n => .number (.integer n.toInt)
  | .double x => if x.isFinite then .number (.float x) else .null
  | .string s => .string s
  | .guid g => .string g.render
  | .date d => .string d.render
  | .dateTime d => .string d.render
  | .list items => .array (toJsonItems items)
  | .object fields => .object (toJsonFields fields)

/-- The documents of several values. -/
def toJsonItems : List Value → List Json
  | [] => []
  | v :: rest => toJson v :: toJsonItems rest

/-- The documents of the fields of an object. -/
def toJsonFields : List (String × Value) → List (String × Json)
  | [] => []
  | (name, v) :: rest => (name, toJson v) :: toJsonFields rest

end

end Value

end Criteria
