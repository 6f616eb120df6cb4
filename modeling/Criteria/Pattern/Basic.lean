import Criteria.Pattern.CharSet

/-!
# Patterns

A `Pattern` describes texts by sets of characters, places, sequence, choice and repetition. The
order of its parts says which of several ways to match is preferred: the left one of two
alternatives, one more round of a greedy repetition, the end of a reluctant one. How a pattern is
matched is in `Criteria.Pattern.Matching`.

Two forms of repetition without an upper bound are basic. `star` decides before every round whether
there is to be one; `plus` decides behind every round. Counted repetitions are written out by
`Pattern.rounded`.
-/

namespace Criteria

/-- A place in a text that is being matched: the character before it, if any, and what follows. -/
structure Place where
  before : Option Char
  rest : List Char
  deriving DecidableEq, Repr

namespace Place

/-- The place before the first character. -/
def start (text : List Char) : Place := ⟨none, text⟩

/-- Whether a word character stands before the place. -/
def afterWord (p : Place) : Bool := p.before.any Text.isWord

/-- Whether a word character stands behind the place. -/
def beforeWord (p : Place) : Bool := p.rest.head?.any Text.isWord

end Place

/-- A condition on a place that takes no character. -/
inductive Anchor where
  | textStart
  | textEnd
  | lineStart
  | lineEnd
  /-- A word character on exactly one side. -/
  | wordEdge
  /-- A word character on both sides or on neither. -/
  | noWordEdge
  deriving DecidableEq, Repr

/-- Whether the condition holds at a place. -/
def Anchor.holds : Anchor → Place → Bool
  | textStart, p => p.before.isNone
  | textEnd, p => p.rest.isEmpty
  | lineStart, p => p.before.isNone || p.before == some '\n'
  | lineEnd, p => p.rest.isEmpty || p.rest.head? == some '\n'
  | wordEdge, p => p.afterWord != p.beforeWord
  | noWordEdge, p => p.afterWord == p.beforeWord

/-- A pattern of texts. -/
inductive Pattern where
  /-- The empty text. -/
  | empty
  /-- One character of a set. -/
  | one (set : CharSet)
  /-- The empty text, at a place that satisfies the condition. -/
  | anchor (a : Anchor)
  /-- One pattern after the other. -/
  | seq (first second : Pattern)
  /-- Either pattern, the left one by preference. -/
  | alt (left right : Pattern)
  /-- The pattern or nothing, the pattern by preference if greedy, else nothing. -/
  | opt (greedy : Bool) (body : Pattern)
  /-- Any number of rounds, as many as possible by preference if greedy, else as few. -/
  | star (greedy : Bool) (body : Pattern)
  /-- One or more rounds, as many as possible by preference if greedy, else as few. -/
  | plus (greedy : Bool) (body : Pattern)
  deriving DecidableEq, Repr, Inhabited

namespace Pattern

/-- Whether every match takes a character. -/
def advances : Pattern → Bool
  | empty | anchor _ | opt _ _ | star _ _ => false
  | one _ => true
  | seq p q => p.advances || q.advances
  | alt p q => p.advances && q.advances
  | plus _ p => p.advances

/-- Whether a repetition occurs in which a round may take nothing. -/
def hasIdleRounds : Pattern → Bool
  | empty | anchor _ | one _ => false
  | seq p q | alt p q => p.hasIdleRounds || q.hasIdleRounds
  | opt _ p => p.hasIdleRounds
  | star _ p | plus _ p => !p.advances || p.hasIdleRounds

/-- Whether the start of the text stands in front of every match. -/
def startsText : Pattern → Bool
  | anchor .textStart => true
  | empty | one _ | anchor _ | opt _ _ | star _ _ => false
  | seq p _ | plus _ p => p.startsText
  | alt p q => p.startsText && q.startsText

/-- The number of choices in the pattern. -/
def choices : Pattern → Nat
  | empty | one _ | anchor _ => 0
  | seq p q => p.choices + q.choices
  | alt p q => p.choices + q.choices + 1
  | opt _ p | star _ p | plus _ p => p.choices + 1

/-! ### Derived forms -/

/-- One given character. -/
def char (c : Char) : Pattern := one (.only c)

/-- The given patterns one after the other. -/
def seqAll : List Pattern → Pattern
  | [] => empty
  | [p] => p
  | p :: rest => seq p (seqAll rest)

/-- One of the given patterns, the earlier ones by preference. -/
def altAll : List Pattern → Pattern
  | [] => empty
  | [p] => p
  | p :: rest => alt p (altAll rest)

/-- Any number of rounds. Where a round may take nothing, the first round is a choice of its own. -/
def many (greedy : Bool) (p : Pattern) : Pattern :=
  if p.advances then star greedy p else opt greedy (plus greedy p)

/-- Exactly `n` rounds. -/
def times (p : Pattern) (n : Nat) : Pattern := seqAll (List.replicate n p)

/-- At most `n` rounds. -/
def upTo (greedy : Bool) (p : Pattern) : Nat → Pattern
  | 0 => empty
  | 1 => opt greedy p
  | n + 1 => opt greedy (seq p (upTo greedy p n))

/-- At least `low` rounds, and at most `high` if there is an upper bound. -/
def rounded (greedy : Bool) (p : Pattern) (low : Nat) : Option Nat → Pattern
  | none =>
    match low with
    | 0 => many greedy p
    | 1 => plus greedy p
    | n + 1 => seq (times p n) (plus greedy p)
  | some high =>
    if high ≤ low then times p low
    else if low = 0 then upTo greedy p high
    else seq (times p low) (upTo greedy p (high - low))

end Pattern

end Criteria
