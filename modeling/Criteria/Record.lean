/-!
# Records

A record holds named fields in the order of their names, each name once. `Record.insert` puts a
field in its place; the order is that of code points, which is also that of the bytes in UTF-8.
-/

namespace Criteria

/-- Named fields in the order of their names. -/
abbrev Record (α : Type) := List (String × α)

namespace Record

variable {α : Type}

/-- The value of the field with the given name. -/
def get? (fields : Record α) (name : String) : Option α :=
  (fields.find? fun f => f.1 == name).map (·.2)

/-- Puts a field in its place by name, instead of the one with its name if there is one. -/
def insert (name : String) (v : α) : Record α → Record α
  | [] => [(name, v)]
  | f :: rest =>
    match compare name f.1 with
    | .lt => (name, v) :: f :: rest
    | .eq => (name, v) :: rest
    | .gt => f :: insert name v rest

/-- The record of fields in any order; of two with one name the later one counts. -/
def ofList (fields : List (String × α)) : Record α :=
  fields.foldl (fun done f => insert f.1 f.2 done) []

end Record

end Criteria
