import Criteria.Pattern.Bracketed
import Criteria.Pattern.Shape

/-!
# Reading the text of a pattern

The text is read from left to right with a stack of open groups. `Pattern.Reading` holds the branch
that is being read, the finished branches of the innermost group, the switches in force and the
groups around it; each step takes one element of the text. A text that is no pattern has no
reading: an open bracket without its closing one or the other way round, a repetition of nothing, an
unknown escape sequence, a range that runs backwards, a look-around or a back-reference.

`Pattern.anchored?` pastes the text between `^(?:` and `)` before it is read, so that the pattern
matches where it is tried and nowhere further on.
-/

namespace Criteria.Pattern

/-- The switches that a group can set. -/
structure Switches where
  ignoreCase : Bool := false
  /-- `^` and `$` hold at every line. -/
  multiLine : Bool := false
  /-- The dot takes line feeds too. -/
  dotAll : Bool := false
  /-- Repetitions are reluctant unless marked, instead of greedy. -/
  swapGreed : Bool := false
  deriving DecidableEq, Repr

/-- A piece of the text: its shape, and how deep its pieces are nested. -/
structure Piece where
  shape : Shape
  depth : Nat := 0
  deriving DecidableEq, Repr

/-- How deep pieces side by side are nested: several of them are one level deeper. -/
def Piece.depthOf : List Nat → Nat
  | [] => 0
  | [d] => d
  | ds => ds.foldl max 0 + 1

/-- An element of a branch: a piece, or a setting of switches, which cannot be repeated. -/
inductive Element where
  | piece (p : Piece)
  | setting
  deriving DecidableEq, Repr

namespace Element

/-- The shape of an element, if it has one. -/
def shape? : Element → Option Shape
  | piece p => some p.shape
  | setting => none

/-- How deep an element is nested. -/
def depth : Element → Nat
  | piece p => p.depth
  | setting => 0

end Element

/-- A group that is not closed: its switches, whether it has a number, its finished branches and the
elements of its last branch, the latest first. -/
structure OpenGroup where
  switches : Switches
  numbered : Bool := false
  branches : List Piece := []
  elements : List Element := []
  deriving DecidableEq, Repr

namespace OpenGroup

/-- The branch that is being read. -/
def branch (g : OpenGroup) : Piece where
  shape := Shape.sequence (g.elements.reverse.filterMap Element.shape?)
  depth := Piece.depthOf (g.elements.map Element.depth)

/-- The choice between the branches of the group. -/
def choice (g : OpenGroup) : Piece :=
  let branches := (g.branch :: g.branches).reverse
  ⟨Shape.choice (branches.map Piece.shape), Piece.depthOf (branches.map Piece.depth)⟩

/-- The whole group. -/
def piece (g : OpenGroup) : Piece :=
  ⟨if g.numbered then .group g.choice.shape else g.choice.shape, g.choice.depth + 1⟩

/-- The group with one more piece at the end of its last branch. -/
def push (g : OpenGroup) (p : Piece) : OpenGroup := { g with elements := .piece p :: g.elements }

end OpenGroup

/-- What has been read of a text: the innermost open group, the groups around it, and the names
given to groups so far. -/
structure Reading where
  group : OpenGroup
  outer : List OpenGroup := []
  names : List (List Char) := []
  deriving DecidableEq, Repr

namespace Reading

/-- The reading with one more piece. -/
def push (r : Reading) (shape : Shape) (depth : Nat := 0) : Reading :=
  { r with group := r.group.push ⟨shape, depth⟩ }

/-- The reading behind a bar: the next branch of the group begins. -/
def nextBranch (r : Reading) : Reading :=
  { r with group := { r.group with
      branches := r.group.branch :: r.group.branches, elements := [] } }

/-- The reading behind the opening bracket of a group. -/
def openGroup (r : Reading) (switches : Switches) (numbered : Bool) : Reading :=
  { r with group := { switches, numbered }, outer := r.group :: r.outer }

/-- The reading behind a closing bracket. -/
def closeGroup (r : Reading) : Option Reading :=
  match r.outer with
  | [] => none
  | g :: outer => some { r with group := g.push r.group.piece, outer }

/-- The reading with its last element repeated. -/
def repeated (r : Reading) (reluctant : Bool) (low : Nat) (high : Option Nat) : Option Reading :=
  match r.group.elements with
  | .piece p :: elements =>
    let shape := p.shape.rounds (reluctant == r.group.switches.swapGreed) low high
    some { r with group := { r.group with elements := .piece ⟨shape, p.depth + 1⟩ :: elements } }
  | _ => none

/-- The largest weight of a pattern, in bytes. -/
def weightLimit : Nat := 0xA00000

/-- The deepest nesting of groups, repetitions, branches and sequences. -/
def depthLimit : Nat := 250

/-- The pattern that has been read, once every group is closed. It must not be too large nor nested
too deep. -/
def finish (r : Reading) : Option Pattern :=
  let ⟨shape, depth⟩ := r.group.choice
  if r.outer.isEmpty && depth ≤ depthLimit && shape.weight + 128 ≤ weightLimit then
    some shape.toPattern
  else none

end Reading

/-- Splits off the question mark that reverses the greed of a repetition. -/
def readReluctance : List Char → Bool × List Char
  | '?' :: cs => (true, cs)
  | cs => (false, cs)

/-- Reads a decimal number with blanks around it. -/
def readCount (cs : List Char) : Option (Nat × List Char) :=
  let cs := cs.dropWhile Text.isBlank
  let digits := cs.takeWhile Text.isAsciiDigit
  if digits.isEmpty then none
  else
    let n := Text.decimalNumber digits
    if n < UInt32.size then some (n, (cs.drop digits.length).dropWhile Text.isBlank) else none

/-- Reads the bounds of a counted repetition behind the opening brace. -/
def readBounds (cs : List Char) : Option (Nat × Option Nat × List Char) := do
  let (low, rest) ← readCount cs
  match rest with
  | '\x7d' :: rest => return (low, some low, rest)
  | ',' :: '\x7d' :: rest => return (low, none, rest)
  | ',' :: rest =>
    let (high, rest) ← readCount rest
    match rest with
    | '\x7d' :: rest => if low ≤ high then return (low, some high, rest) else none
    | _ => none
  | _ => none

/-- Reads switches up to the colon or bracket that ends them, and tells which it was. A hyphen
turns off the switches behind it; no switch may occur twice. -/
def readSwitches : Switches → Bool → List Char → List Char → Option (Switches × Bool × List Char)
  | _, _, _, [] => none
  | s, on, seen, c :: cs =>
    if c = ':' ∨ c = ')' then
      if seen.head? = some '-' ∨ (c = ')' ∧ seen = []) then none else some (s, c == ':', cs)
    else if seen.contains c then none
    else match c with
      | '-' => readSwitches s false (c :: seen) cs
      | 'i' => readSwitches { s with ignoreCase := on } on (c :: seen) cs
      | 'm' => readSwitches { s with multiLine := on } on (c :: seen) cs
      | 's' => readSwitches { s with dotAll := on } on (c :: seen) cs
      | 'U' => readSwitches { s with swapGreed := on } on (c :: seen) cs
      | 'u' => if on then readSwitches s on (c :: seen) cs else none
      | _ => none

/-- Reads the name of a group up to its closing angle bracket. -/
def readName (cs : List Char) : Option (List Char × List Char) :=
  let name := cs.takeWhile (· != '>')
  match name, cs.drop name.length with
  | c :: more, _ :: rest =>
    if (c == '_' || Text.alphabeticRanges.contains c.toNat || Text.isAsciiLetter c) &&
        more.all (fun d => "_.[]".toList.contains d || Text.isAlphanumeric d)
    then some (name, rest) else none
  | _, _ => none

/-- Reads a named group behind the angle bracket that opens its name. -/
def Reading.openNamed (r : Reading) (cs : List Char) : Option (Reading × List Char) := do
  let (name, rest) ← readName cs
  if r.names.contains name then none
  else return ({ r.openGroup r.group.switches true with names := name :: r.names }, rest)

/-- Reads the start of a group behind its bracket, or a setting of switches. -/
def Reading.readGroup (r : Reading) : List Char → Option (Reading × List Char)
  | '?' :: '=' :: _ | '?' :: '!' :: _ | '?' :: '<' :: '=' :: _ | '?' :: '<' :: '!' :: _ => none
  | '?' :: 'P' :: '<' :: cs => r.openNamed cs
  | '?' :: '<' :: cs => r.openNamed cs
  | '?' :: cs => do
    let (switches, isGroup, rest) ← readSwitches r.group.switches true [] cs
    if isGroup then return (r.openGroup switches false, rest)
    else return ({ r with group := { r.group with
      switches, elements := .setting :: r.group.elements } }, rest)
  | cs => some (r.openGroup r.group.switches true, cs)

/-- Reads one element of the text, whose first character is `c`. -/
def Reading.step (r : Reading) (c : Char) (cs : List Char) : Option (Reading × List Char) :=
  let s := r.group.switches
  match c with
  | '\\' => do
    let (e, rest) ← readEscape cs
    match e with
    | .char d => return (r.push (.ofChar s.ignoreCase d), rest)
    | .set set => return (r.push (.one set), rest)
    | .anchor a => return (r.push (.anchor a), rest)
  | '[' => do
    let (set, rest) ← readClass s.ignoreCase cs
    return (r.push (.ofSet set) 1, rest)
  | '(' => r.readGroup cs
  | ')' => do return (← r.closeGroup, cs)
  | '|' => some (r.nextBranch, cs)
  | '*' =>
    let (reluctant, rest) := readReluctance cs
    (r.repeated reluctant 0 none).map (·, rest)
  | '+' =>
    let (reluctant, rest) := readReluctance cs
    (r.repeated reluctant 1 none).map (·, rest)
  | '?' =>
    let (reluctant, rest) := readReluctance cs
    (r.repeated reluctant 0 (some 1)).map (·, rest)
  | '\x7b' => do
    let (low, high, rest) ← readBounds cs
    let (reluctant, rest) := readReluctance rest
    return (← r.repeated reluctant low high, rest)
  | '.' => some (r.push (.one (if s.dotAll then .all else .notLineFeed)), cs)
  | '^' => some (r.push (.anchor (if s.multiLine then .lineStart else .textStart)), cs)
  | '$' => some (r.push (.anchor (if s.multiLine then .lineEnd else .textEnd)), cs)
  | c => some (r.push (.ofChar s.ignoreCase c), cs)

/-- Reads the rest of the text in at most `n` steps. -/
def Reading.run : Nat → Reading → List Char → Option Pattern
  | _, r, [] => r.finish
  | 0, _, _ :: _ => none
  | n + 1, r, c :: cs =>
    match r.step c cs with
    | some (r, rest) => Reading.run n r rest
    | none => none

/-- The pattern that a text stands for. -/
def read? (ignoreCase : Bool) (text : List Char) : Option Pattern :=
  Reading.run text.length { group := { switches := { ignoreCase } } } text

/-- The pattern that a text stands for, tied to the place where it is tried. -/
def anchored? (ignoreCase : Bool) (source : String) : Option Pattern :=
  read? ignoreCase ("^(?:".toList ++ source.toList ++ [')'])

end Criteria.Pattern
