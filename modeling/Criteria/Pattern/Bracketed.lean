import Criteria.Pattern.Escape

/-!
# Bracketed classes

A class in brackets lists characters, ranges, escape sequences, named ASCII classes such as
`[:alpha:]` and nested classes. Between such unions stand the set operations `&&`, `--` and `~~`,
all of the same rank and grouped to the left. A caret behind the bracket negates the class. Where
case is ignored, variants are added before the class is negated.
-/

namespace Criteria.Pattern

/-- An operation between two parts of a class. -/
inductive SetOperation where
  | intersection
  | difference
  | symmetricDifference

/-- The set that an operation makes of two. -/
def SetOperation.apply : SetOperation → CharSet → CharSet → CharSet
  | intersection => .inter
  | difference => .diff
  | symmetricDifference => .symmDiff

/-- A class whose closing bracket is still to come: whether it is negated, the part to the left of
the last operation, and the members read since, the last one first. -/
structure OpenClass where
  negated : Bool
  left : Option (SetOperation × CharSet) := none
  members : List CharSet := []

namespace OpenClass

/-- The class with one more member. -/
def add (c : OpenClass) (s : CharSet) : OpenClass := { c with members := s :: c.members }

/-- The set read so far, its negation aside. -/
def value (ignoreCase : Bool) (c : OpenClass) : CharSet :=
  let right := CharSet.unionAll c.members.reverse
  match c.left with
  | none => right
  | some (op, left) => op.apply (left.ignoringCase ignoreCase) (right.ignoringCase ignoreCase)

/-- The class behind a set operation. -/
def operation (ignoreCase : Bool) (op : SetOperation) (c : OpenClass) : OpenClass :=
  { c with left := some (op, c.value ignoreCase), members := [] }

/-- The set that the finished class stands for. -/
def close (ignoreCase : Bool) (c : OpenClass) : CharSet :=
  let s := (c.value ignoreCase).ignoringCase ignoreCase
  if c.negated then .compl s else s

end OpenClass

/-- The classes of ASCII characters that have a name. -/
def namedClass? : String → Option CharSet
  | "alnum" => some (.unionAll [.range '0' '9', .range 'A' 'Z', .range 'a' 'z'])
  | "alpha" => some (.unionAll [.range 'A' 'Z', .range 'a' 'z'])
  | "ascii" => some (.range '\x00' '\x7f')
  | "blank" => some (.unionAll [.only '\t', .only ' '])
  | "cntrl" => some (.unionAll [.range '\x00' '\x1f', .only '\x7f'])
  | "digit" => some (.range '0' '9')
  | "graph" => some (.range '!' '~')
  | "lower" => some (.range 'a' 'z')
  | "print" => some (.range ' ' '~')
  | "punct" => some (.unionAll [.range '!' '/', .range ':' '@', .range '[' '\x60',
      .range '\x7b' '~'])
  | "space" => some (.unionAll [.range '\t' '\r', .only ' '])
  | "upper" => some (.range 'A' 'Z')
  | "word" => some (.unionAll [.range '0' '9', .range 'A' 'Z', .only '_', .range 'a' 'z'])
  | "xdigit" => some (.unionAll [.range '0' '9', .range 'A' 'F', .range 'a' 'f'])
  | _ => none

/-- Reads a named class such as `[:alpha:]` or `[:^digit:]` behind its opening bracket. -/
def readNamedClass? : List Char → Option (CharSet × List Char)
  | ':' :: cs =>
    let negated := cs.head? == some '^'
    let cs := if negated then cs.tail else cs
    let name := cs.takeWhile (· != ':')
    match cs.drop name.length with
    | ':' :: ']' :: rest =>
      (namedClass? (String.ofList name)).map fun s => (if negated then .compl s else s, rest)
    | _ => none
  | _ => none

/-- Reads the start of a class behind its opening bracket. Hyphens there stand for themselves, and
so does a closing bracket if nothing comes before it. -/
def openClass (cs : List Char) : OpenClass × List Char :=
  let negated := cs.head? == some '^'
  let cs := if negated then cs.tail else cs
  let hyphens := cs.takeWhile (· == '-')
  let rest := cs.drop hyphens.length
  let c : OpenClass := { negated, members := hyphens.map .only }
  match hyphens, rest with
  | [], ']' :: rest => (c.add (.only ']'), rest)
  | _, rest => (c, rest)

/-- Reads one character or escape sequence inside a class. -/
def readMember : List Char → Option (Escaped × List Char)
  | [] => none
  | '\\' :: cs => readEscape cs
  | c :: cs => some (.char c, cs)

/-- Reads a member of a class: a character, a class of characters, or a range of characters. A
hyphen before the closing bracket or before another hyphen makes no range. -/
def readRange (cs : List Char) : Option (CharSet × List Char) := do
  let (first, rest) ← readMember cs
  match first, rest with
  | .char low, '-' :: next :: rest' =>
    if next = ']' ∨ next = '-' then return (.only low, rest)
    let (last, rest) ← readMember (next :: rest')
    match last with
    | .char high => if low ≤ high then return (.range low high, rest) else none
    | _ => none
  | .char c, _ => return (.only c, rest)
  | .set s, '-' :: next :: _ => if next = ']' ∨ next = '-' then return (s, rest) else none
  | .set s, _ => return (s, rest)
  | .anchor _, _ => none

/-- Reads the rest of a class, with the classes it is nested in. -/
def readClassBody (ignoreCase : Bool) :
    Nat → OpenClass → List OpenClass → List Char → Option (CharSet × List Char)
  | 0, _, _, _ => none
  | n + 1, c, outer, cs =>
    match cs with
    | [] => none
    | ']' :: rest =>
      let s := c.close ignoreCase
      match outer with
      | [] => some (s, rest)
      | d :: outer => readClassBody ignoreCase n (d.add s) outer rest
    | '[' :: rest =>
      match readNamedClass? rest with
      | some (s, rest) => readClassBody ignoreCase n (c.add s) outer rest
      | none =>
        let (d, rest) := openClass rest
        readClassBody ignoreCase n d (c :: outer) rest
    | '&' :: '&' :: rest =>
      readClassBody ignoreCase n (c.operation ignoreCase .intersection) outer rest
    | '-' :: '-' :: rest =>
      readClassBody ignoreCase n (c.operation ignoreCase .difference) outer rest
    | '~' :: '~' :: rest =>
      readClassBody ignoreCase n (c.operation ignoreCase .symmetricDifference) outer rest
    | cs => do
      let (s, rest) ← readRange cs
      readClassBody ignoreCase n (c.add s) outer rest

/-- Reads a class behind its opening bracket. -/
def readClass (ignoreCase : Bool) (cs : List Char) : Option (CharSet × List Char) :=
  let (c, rest) := openClass cs
  readClassBody ignoreCase (rest.length + 1) c [] rest

end Criteria.Pattern
