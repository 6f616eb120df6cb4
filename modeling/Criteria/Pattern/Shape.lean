import Criteria.Pattern.Basic
import Criteria.Text.Basic

/-!
# The shape of a pattern

A `Shape` is what the text of a pattern says, brought into a normal form, before its repetitions are
written out by `Shape.toPattern`. In the normal form

* no part of a sequence is empty or a sequence, and characters side by side are one part
  (`Shape.sequence`);
* no branch of a choice is a choice, and a choice between characters or between sets of them is a
  set (`Shape.alternatives`);
* nothing is repeated exactly once, and nothing that takes no characters is repeated at all
  (`Shape.rounds`);
* what all branches of a choice begin with stands in front of the choice (`Shape.choice`).

The last rule shows in what is matched: the ways to match the common start are tried in turn, and
for each of them the branches in order.
-/

namespace Criteria.Pattern

/-- What the text of a pattern says. Sequences and choices are nested to the right. -/
inductive Shape where
  | empty
  /-- The given characters, one at least. -/
  | chars (cs : List Char)
  /-- One character of a set that has not just one. -/
  | one (set : CharSet)
  | anchor (a : Anchor)
  | seq (first rest : Shape)
  | alt (first rest : Shape)
  | repeated (greedy : Bool) (low : Nat) (high : Option Nat) (body : Shape)
  /-- A group with a number. -/
  | group (body : Shape)
  deriving DecidableEq, Repr, Inhabited

namespace Shape

/-- One character of a set. -/
def ofSet (set : CharSet) : Shape :=
  match set.only? with
  | some c => chars [c]
  | none => one set

/-- One given character, case variants included where case is ignored. -/
def ofChar (ignoreCase : Bool) (c : Char) : Shape :=
  if ignoreCase && Text.caseVariants c != [c] then one (.folded (.only c)) else chars [c]

/-- Whether two shapes say the same. A group with a number differs from every other one. -/
def same : Shape → Shape → Bool
  | empty, empty => true
  | chars cs, chars ds => cs == ds
  | one s, one t => s.same t
  | anchor a, anchor b => a == b
  | seq a as, seq b bs | alt a as, alt b bs => a.same b && as.same bs
  | repeated g l h a, repeated g' l' h' b => g == g' && l == l' && h == h' && a.same b
  | _, _ => false

/-- Whether a match may take characters. -/
def mayAdvance : Shape → Bool
  | empty | anchor _ => false
  | chars _ | one _ => true
  | seq a b | alt a b => a.mayAdvance || b.mayAdvance
  | repeated _ _ _ a | group a => a.mayAdvance

/-- Whether every match takes a character. -/
def advances : Shape → Bool
  | empty | anchor _ => false
  | chars _ | one _ => true
  | seq a b => a.advances || b.advances
  | alt a b => a.advances && b.advances
  | repeated _ low _ a => low != 0 && a.advances
  | group a => a.advances

/-- The bytes that a table of states over the bytes of a text takes for the shape. A state takes 32
bytes and a way out of a choice 4. -/
def weight : Shape → Nat
  | empty | anchor _ => 32
  | chars cs => 32 * Text.byteLength cs
  | one set => 64 + set.weight
  | seq a b => a.weight + b.weight
  | alt a (alt b c) => a.weight + (alt b c).weight + 4
  | alt a b => a.weight + b.weight + 72
  | repeated _ low none a =>
    max low 1 * a.weight + if low = 0 ∧ !a.advances then 112 else 40
  | repeated _ low (some high) a =>
    if low = high then low * a.weight
    else high * a.weight + 40 * (high - low) + if low = 0 ∧ high ≠ 1 then 64 else 32
  | group a => a.weight + 64

/-- The parts of a sequence. -/
def parts : Shape → List Shape
  | empty => []
  | seq a b => a :: b.parts
  | a => [a]

/-- The branches of a choice. -/
def branches : Shape → List Shape
  | alt a b => a :: b.branches
  | a => [a]

/-- The sequence of the given parts. -/
def ofParts : List Shape → Shape
  | [] => empty
  | [a] => a
  | a :: rest => seq a (ofParts rest)

/-- The choice between the given branches. -/
def ofBranches : List Shape → Shape
  | [] => empty
  | [a] => a
  | a :: rest => alt a (ofBranches rest)

/-- The parts with one more in front. -/
def prepend : Shape → List Shape → List Shape
  | chars cs, chars ds :: rest => chars (cs ++ ds) :: rest
  | a, rest => a :: rest

/-- The given shapes one after the other. -/
def sequence (shapes : List Shape) : Shape := ofParts ((shapes.flatMap parts).foldr prepend [])

/-- The character that a shape is. -/
def char? : Shape → Option Char
  | chars [c] => some c
  | _ => none

/-- The set that a shape is. -/
def set? : Shape → Option CharSet
  | one set => some set
  | _ => none

/-- One of the given shapes, the earlier ones by preference. -/
def alternatives (shapes : List Shape) : Shape :=
  let shapes := shapes.flatMap branches
  match shapes.mapM char?, shapes.mapM set? with
  | some cs, _ => ofSet (.unionAll (cs.map .only))
  | _, some sets => ofSet (.unionAll sets)
  | _, _ => ofBranches shapes

/-- What two lists of parts have in common at their start. -/
def commonStart : List Shape → List Shape → List Shape
  | a :: as, b :: bs => if a.same b then a :: commonStart as bs else []
  | _, _ => []

/-- One of the given shapes, the earlier ones by preference. What all of them begin with stands in
front of the choice, unless one of them is a single part. -/
def choice (shapes : List Shape) : Shape :=
  match (shapes.flatMap branches).map parts with
  | [] => empty
  | [a] => ofParts a
  | a :: rest =>
    if (a :: rest).any (·.length < 2) then alternatives shapes
    else
      let start := rest.foldl commonStart a
      let ends := (a :: rest).map fun b => ofParts (b.drop start.length)
      sequence (start ++ [alternatives ends])

/-- At least `low` rounds, and at most `high` if there is an upper bound. Of a shape that takes no
characters, one round is as good as many. -/
def rounds (a : Shape) (greedy : Bool) (low : Nat) (high : Option Nat) : Shape :=
  let (low, high) :=
    if a.mayAdvance then (low, high) else (min low 1, some (min (high.getD 1) 1))
  if high = some 0 then empty
  else if low = 1 ∧ high = some 1 then a
  else repeated greedy low high a

/-- The pattern that has the shape. -/
def toPattern : Shape → Pattern
  | empty => .empty
  | chars cs => .seqAll (cs.map .char)
  | one set => .one set
  | anchor a => .anchor a
  | seq a b => .seq a.toPattern b.toPattern
  | alt a b => .alt a.toPattern b.toPattern
  | repeated greedy low high a => a.toPattern.rounded greedy low high
  | group a => a.toPattern

end Shape

end Criteria.Pattern
