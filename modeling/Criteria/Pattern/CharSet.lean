import Criteria.Text.Basic
import Criteria.Text.CaseFold

/-!
# Sets of characters

A `CharSet` describes the characters that one place of a pattern accepts. Sets are built from
ranges and named classes by the operations of set algebra, and `CharSet.folded` adds to a set every
character that differs from a member only in case. Complement and folding do not commute: a negated
class that ignores case folds first, as `CharSet.contains_compl_folded` spells out.
-/

namespace Criteria

/-- A set of characters. -/
inductive CharSet where
  /-- No character at all. -/
  | none
  /-- The characters from `low` to `high`, both included. -/
  | range (low high : Char)
  /-- Word characters. -/
  | word
  /-- Decimal digits. -/
  | digit
  /-- White space. -/
  | blank
  | union (a b : CharSet)
  | inter (a b : CharSet)
  | compl (a : CharSet)
  /-- The members of a set and all their case variants. -/
  | folded (a : CharSet)
  deriving DecidableEq, Repr, Inhabited

namespace CharSet

/-- Membership in a set of characters. -/
def contains : CharSet → Char → Bool
  | none, _ => false
  | range low high, c => low ≤ c && c ≤ high
  | word, c => Text.isWord c
  | digit, c => Text.isDigit c
  | blank, c => Text.isBlank c
  | union a b, c => a.contains c || b.contains c
  | inter a b, c => a.contains c && b.contains c
  | compl a, c => !a.contains c
  | folded a, c => (Text.caseVariants c).any a.contains

/-- The set of one character. -/
def only (c : Char) : CharSet := range c c

/-- Every character but the line feed. -/
def notLineFeed : CharSet := compl (only '\n')

/-- Every character. -/
def all : CharSet := compl none

/-- The members of any of the given sets. -/
def unionAll : List CharSet → CharSet
  | [] => none
  | [a] => a
  | a :: rest => union a (unionAll rest)

/-- The members of `a` that are not in `b`. -/
def diff (a b : CharSet) : CharSet := inter a (compl b)

/-- The members of exactly one of `a` and `b`. -/
def symmDiff (a b : CharSet) : CharSet := union (diff a b) (diff b a)

/-- The set as it is, or with all case variants where case is ignored. -/
def ignoringCase (ignore : Bool) (a : CharSet) : CharSet := if ignore then folded a else a

/-- About how many bytes a table takes that finds the members by the bytes of their UTF-8 form. -/
def weight : CharSet → Nat
  | none => 0
  | range low high =>
    if high.toNat < 0x80 then 8
    else if low.toNat / 64 = high.toNat / 64 then 36 * high.utf8Size else 300
  | word => 49772
  | digit => 5052
  | blank => 616
  | union a b => a.weight + b.weight
  | inter a b => min a.weight b.weight
  | compl a => a.weight + 928
  | folded a =>
    a.weight + min a.weight 64 + if a.contains 'k' || a.contains 's' then 200 else 0

/-- The code points where membership may begin or end: it is the same for all characters from one of
them to the next. -/
def edges : CharSet → List Nat
  | none => []
  | range low high => [low.toNat, high.toNat + 1]
  | word => 0x80 :: Text.Ranges.edges ([(0x30, 0x39), (0x41, 0x5A), (0x5F, 0x5F), (0x61, 0x7A),
      (0x200C, 0x200D)] ++ Text.alphabeticRanges ++ Text.markRanges ++ Text.decimalDigitRanges ++
      Text.connectorRanges)
  | digit => 0x80 :: Text.Ranges.edges ((0x30, 0x39) :: Text.decimalDigitRanges)
  | blank => 0x80 :: Text.Ranges.edges ((0x09, 0x0D) :: (0x20, 0x20) :: Text.blankRanges)
  | union a b | inter a b => a.edges ++ b.edges
  | compl a => a.edges
  | folded a => a.edges ++ Text.casedCodes.flatMap fun n => [n, n + 1]

/-- The first character from a code point on; surrogates are no characters. -/
def charFrom? (n : Nat) : Option Char :=
  if n.isValidChar then some (Char.ofNat n) else if n < 0xE000 then some '\uE000' else Option.none

/-- A character of every stretch on which membership is the same. -/
def landmarks (a : CharSet) : List Char := (0 :: a.edges).filterMap charFrom?

/-- Whether two sets have the same members. -/
def same (a b : CharSet) : Bool :=
  a == b || (a.landmarks ++ b.landmarks).all fun c => a.contains c == b.contains c

/-- The character of a set that has only one. -/
def only? : CharSet → Option Char
  | folded a => (only? a).filter fun c => Text.caseVariants c == [c]
  | a => (a.landmarks.find? a.contains).filter fun c =>
    (charFrom? (c.toNat + 1)).all (fun d => !a.contains d) &&
      a.landmarks.all fun d => d == c || !a.contains d

@[simp] theorem contains_only (c d : Char) : (only c).contains d = (c == d) := by
  rw [Bool.eq_iff_iff]
  simpa [only, contains] using ⟨fun ⟨h₁, h₂⟩ => Char.le_antisymm h₁ h₂, fun h => h ▸ by simp⟩

@[simp] theorem contains_compl (a : CharSet) (c : Char) :
    (compl a).contains c = !a.contains c := rfl

@[simp] theorem contains_union (a b : CharSet) (c : Char) :
    (union a b).contains c = (a.contains c || b.contains c) := rfl

theorem contains_compl_folded (a : CharSet) (c : Char) :
    (compl (folded a)).contains c = (Text.caseVariants c).all fun d => !a.contains d := by
  simp [contains, List.all_eq_not_any_not]

end CharSet

end Criteria
