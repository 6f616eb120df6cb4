import Criteria.Value.Basic

/-!
# Hashing values

`Value.hashWrites` is what a value writes to a hasher: which variant it is, and then its parts, with
their number in front of items and of fields. `Hashing.collect` puts values into a set that finds them
by the hash of what they write; of equal values the first one is kept.
-/

namespace Criteria

/-- What is written to a hasher at a time. -/
inductive HashWrite where
  | variant (t : ValueType)
  | boolean (b : Bool)
  | integer (n : Int32)
  | long (n : Int64)
  /-- The bits of a double. -/
  | bits (n : UInt64)
  | string (s : String)
  | guid (g : Guid)
  | date (d : Date)
  | dateTime (d : DateTime)
  /-- The number of items or fields that follow. -/
  | length (n : Nat)
  deriving DecidableEq, Repr

namespace Value

mutual

/-- What a value writes to a hasher. -/
def hashWrites : Value → List HashWrite
  | null => [.variant .null]
  | boolean b => [.variant .boolean, .boolean b]
  | integer n => [.variant .integer, .integer n]
  | long n => [.variant .long, .long n]
  | double x => [.variant .double, .bits x.bits]
  | string s => [.variant .string, .string s]
  | guid g => [.variant .guid, .guid g]
  | date d => [.variant .date, .date d]
  | dateTime d => [.variant .dateTime, .dateTime d]
  | list items => .variant .list :: .length items.length :: hashItems items
  | object fields => .variant .object :: .length fields.length :: hashFields fields

/-- What values write one behind the other. -/
def hashItems : List Value → List HashWrite
  | [] => []
  | v :: rest => hashWrites v ++ hashItems rest

/-- What fields write one behind the other, each its name and its value. -/
def hashFields : List (String × Value) → List HashWrite
  | [] => []
  | (name, v) :: rest => .string name :: (hashWrites v ++ hashFields rest)

end

end Value

/-- A way to find values by hash. -/
structure Hashing where
  /-- The hash of what is written. -/
  hash : List HashWrite → UInt64
  /-- Whether a search by the first hash comes past an entry with the second one. -/
  passes : UInt64 → UInt64 → Bool
  /-- No search misses the entries with its own hash. -/
  passes_self : ∀ code, passes code code = true

namespace Hashing

/-- The coarsest way gives all values one hash and compares with every entry. -/
instance : Inhabited Hashing := ⟨⟨fun _ => 0, fun _ _ => true, fun _ => rfl⟩⟩

/-- Whether a value is found in a set: of the entries only those are compared that the search comes
past. -/
def finds (h : Hashing) (entries : List Value) (v : Value) : Bool :=
  entries.any fun w => h.passes (h.hash v.hashWrites) (h.hash w.hashWrites) && v == w

/-- Puts a value into a set in which it is not found yet. -/
def insert (h : Hashing) (entries : List Value) (v : Value) : List Value :=
  if h.finds entries v then entries else entries ++ [v]

/-- The set of the values in a list. -/
def collect (h : Hashing) (items : List Value) : List Value := items.foldl h.insert []

end Hashing

end Criteria
