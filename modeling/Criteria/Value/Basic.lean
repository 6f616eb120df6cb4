import Criteria.Calendar
import Criteria.Guid
import Criteria.Number.Shortest
import Criteria.Record

/-!
# Values

The values that literals denote, documents hold and operators produce. Numbers keep the width they
were declared with, and equality never crosses a width: the integer 5, the long 5 and the double
5.0 are three values. Doubles are equal when their bits are, so a value always equals itself.

`Value.render` writes a value in the syntax of literals. An object lists its fields in the order of
their names.
-/

namespace Criteria

/-- The type of a value, or of an expression as far as it is declared. -/
inductive ValueType where
  | null
  | boolean
  | integer
  | long
  | double
  | string
  | guid
  | date
  | dateTime
  | list
  | object
  deriving DecidableEq, Repr, Inhabited

namespace ValueType

/-- The name of a type in messages. -/
def name : ValueType → String
  | null => "null"
  | boolean => "boolean"
  | integer => "integer"
  | long => "long"
  | double => "double"
  | string => "string"
  | guid => "guid"
  | date => "date"
  | dateTime => "datetime"
  | list => "list"
  | object => "object"

/-- Whether values of the type are numbers. -/
def isNumeric : ValueType → Bool
  | integer | long | double => true
  | _ => false

/-- Whether values of the type are collections, which are tested for emptiness and not for null. -/
def isCollection : ValueType → Bool
  | list => true
  | _ => false

end ValueType

/-- A value. -/
inductive Value where
  | null
  | boolean (b : Bool)
  | integer (n : Int32)
  | long (n : Int64)
  | double (x : Binary64)
  | string (s : String)
  | guid (g : Guid)
  | date (d : Date)
  | dateTime (d : DateTime)
  | list (items : List Value)
  | object (fields : List (String × Value))
  deriving Repr, Inhabited

namespace Value

/-- The type of a value. -/
def type : Value → ValueType
  | null => .null
  | boolean _ => .boolean
  | integer _ => .integer
  | long _ => .long
  | double _ => .double
  | string _ => .string
  | guid _ => .guid
  | date _ => .date
  | dateTime _ => .dateTime
  | list _ => .list
  | object _ => .object

/-- Whether a value is null. -/
def isNull : Value → Bool
  | null => true
  | _ => false

/-! ### Equality -/

mutual

/-- Equality of values. -/
def eqv : Value → Value → Bool
  | null, null => true
  | boolean a, boolean b => a == b
  | integer a, integer b => a == b
  | long a, long b => a == b
  | double a, double b => a.bits == b.bits
  | string a, string b => a == b
  | guid a, guid b => a == b
  | date a, date b => a == b
  | dateTime a, dateTime b => a == b
  | list a, list b => eqvItems a b
  | object a, object b => eqvFields a b
  | _, _ => false

/-- Equality of lists of values. -/
def eqvItems : List Value → List Value → Bool
  | [], [] => true
  | a :: as, b :: bs => eqv a b && eqvItems as bs
  | _, _ => false

/-- Equality of fields. -/
def eqvFields : List (String × Value) → List (String × Value) → Bool
  | [], [] => true
  | (j, a) :: as, (k, b) :: bs => j == k && eqv a b && eqvFields as bs
  | _, _ => false

end

instance : BEq Value := ⟨eqv⟩

mutual

theorem eqv_iff : ∀ a b : Value, eqv a b = true ↔ a = b
  | null, b => by cases b <;> simp [eqv]
  | boolean _, b => by cases b <;> simp [eqv]
  | integer _, b => by cases b <;> simp [eqv]
  | long _, b => by cases b <;> simp [eqv]
  | double x, b => by
    cases b <;> simp [eqv]
    exact ⟨fun h => by cases x; congr, fun h => h ▸ rfl⟩
  | string _, b => by cases b <;> simp [eqv]
  | guid _, b => by cases b <;> simp [eqv]
  | date _, b => by cases b <;> simp [eqv]
  | dateTime _, b => by cases b <;> simp [eqv]
  | list as, b => by
    cases b <;> simp [eqv]
    exact eqvItems_iff as _
  | object as, b => by
    cases b <;> simp [eqv]
    exact eqvFields_iff as _

theorem eqvItems_iff : ∀ as bs : List Value, eqvItems as bs = true ↔ as = bs
  | [], [] => by simp [eqvItems]
  | [], _ :: _ => by simp [eqvItems]
  | _ :: _, [] => by simp [eqvItems]
  | a :: as, b :: bs => by simp [eqvItems, eqv_iff a b, eqvItems_iff as bs]

theorem eqvFields_iff : ∀ as bs : List (String × Value), eqvFields as bs = true ↔ as = bs
  | [], [] => by simp [eqvFields]
  | [], _ :: _ => by simp [eqvFields]
  | _ :: _, [] => by simp [eqvFields]
  | (j, a) :: as, (k, b) :: bs => by
    simp [eqvFields, eqv_iff a b, eqvFields_iff as bs, and_assoc]

end

instance : LawfulBEq Value where
  eq_of_beq h := (eqv_iff _ _).1 h
  rfl := (eqv_iff _ _).2 rfl

instance : DecidableEq Value := fun a b => decidable_of_iff _ (eqv_iff a b)

/-! ### Text -/

/-- Doubles are positional from 0.0001 up to 10^16, have an exponent without plus sign beyond, and
of two shortest forms equally near the larger one. -/
def doubleFormat : Number.NumberFormat := ⟨-4, 16, false, true⟩

/-- A quote inside a string is written twice. -/
def doubleQuotes : List Char → List Char
  | [] => []
  | c :: cs => if c = '\x27' then '\x27' :: '\x27' :: doubleQuotes cs else c :: doubleQuotes cs

/-- Writes a string in quotes. -/
def quote (s : String) : String := "'" ++ String.ofList (doubleQuotes s.toList) ++ "'"

mutual

/-- Writes a value in the syntax of literals. -/
def render : Value → String
  | null => "null"
  | boolean b => if b then "true" else "false"
  | integer n => toString n.toInt
  | long n => toString n.toInt ++ "L"
  | double x => doubleFormat.write x
  | string s => quote s
  | guid g => g.render
  | date d => d.render
  | dateTime d => d.render
  | list items => "[" ++ renderItems items ++ "]"
  | object fields => "\x7b" ++ renderFields fields ++ "\x7d"

/-- Writes values with commas between them. -/
def renderItems : List Value → String
  | [] => ""
  | [v] => render v
  | v :: rest => render v ++ "," ++ renderItems rest

/-- Writes fields with commas between them. -/
def renderFields : List (String × Value) → String
  | [] => ""
  | [(name, v)] => name ++ ":" ++ render v
  | (name, v) :: rest => name ++ ":" ++ render v ++ "," ++ renderFields rest

end

/-- The text that string operators see: a string without its quotes, nothing for null. -/
def asText : Value → String
  | null => ""
  | string s => s
  | v => v.render

/-! ### Order -/

/-- The order of two values. Numbers compare across widths, a long as the nearest double when the
other side is a double; other values compare within their type, if they do at all. -/
def order? : Value → Value → Option Ordering
  | integer a, integer b => some (compare a.toInt b.toInt)
  | long a, long b => some (compare a.toInt b.toInt)
  | integer a, long b => some (compare a.toInt b.toInt)
  | long a, integer b => some (compare a.toInt b.toInt)
  | double a, double b => a.order? b
  | double a, integer b => a.order? (.ofInt b.toInt)
  | integer a, double b => (Binary64.ofInt a.toInt).order? b
  | double a, long b => a.order? (.ofInt b.toInt)
  | long a, double b => (Binary64.ofInt a.toInt).order? b
  | string a, string b => some (compare a b)
  | boolean a, boolean b => some (compare a.toNat b.toNat)
  | guid a, guid b => some (compare a.bits.toNat b.bits.toNat)
  | date a, date b => some (a.order b)
  | dateTime a, dateTime b => some (a.order b)
  | _, _ => none

end Value

end Criteria
