import Criteria.Pattern.Basic

/-!
# Matching

The match of a pattern is the most preferred of all ways to match from the leftmost place where
there is one. A way to match goes through each choice of the pattern at most once between two
characters; so rounds that take nothing come to an end, and a text bounds the ways to match it.

All ways are followed side by side, one character at a time:

* a `Thread` is what one way still has to match;
* `Pattern.moves` lists, in order of preference, what may come next at a place: the end of the
  pattern, or a character of some set and the thread behind it;
* `Thread.race` keeps the threads in order of preference. The end of a match rules out every thread
  behind it, and of equal threads the first one stays, so that the size of the pattern bounds their
  number.

Choices have numbers, and those passed since the last character are remembered only for patterns
with idle rounds; no other pattern can meet a choice twice between two characters.
-/

namespace Criteria

/-- What is still to be matched: patterns one after the other, each with the number of its first
choice in the whole pattern. -/
abbrev Thread := List (Nat × Pattern)

/-- What may come next at a place. -/
inductive Move where
  /-- The end of what is to be matched. The choices are those passed since the last character. -/
  | stop (passed : List Nat)
  /-- A character of the set, and behind it a thread. -/
  | take (set : CharSet) (next : Thread)
  deriving DecidableEq, Repr

namespace Move

/-- Whether the move is the end. -/
def isStop : Move → Bool
  | stop _ => true
  | take _ _ => false

/-- The thread behind a character. -/
def next? (c : Char) : Move → Option Thread
  | stop _ => none
  | take set next => if set.contains c then some next else none

/-- The moves that take a character. -/
def taking (moves : List Move) : List Move := moves.filter fun m => !m.isStop

/-- The given moves or the end; a greedy choice prefers the moves. -/
def orStop (greedy : Bool) (moves : List Move) (passed : List Nat) : List Move :=
  match greedy with
  | true => moves ++ [.stop passed]
  | false => .stop passed :: moves

/-- The moves of two patterns one after the other. Those of the second pattern stand where the first
one ends by preference; where it ends otherwise, they would only come again. -/
def followedBy : List Move → (List Nat → List Move) → List Move
  | [], _ => []
  | stop passed :: moves, second => second passed ++ taking moves
  | take set next :: moves, second => take set next :: followedBy moves second

end Move

namespace Pattern

/-- The moves behind choice `n`, given the choices passed before. A choice that is remembered as
passed is not passed again. -/
def pass (remember : Bool) (n : Nat) (passed : List Nat) (behind : List Nat → List Move) :
    List Move :=
  match remember with
  | false => behind passed
  | true => if passed.contains n then [] else behind (n :: passed)

/-- The moves at a place that has a pattern ahead and the thread `next` behind the pattern. The
choices of the pattern have numbers from `n` on; `passed` are those passed since the last character.
A repetition whose round takes nothing is over, since another round would meet the same choices. -/
def moves (remember : Bool) (place : Place) : Pattern → Nat → Thread → List Nat → List Move
  | empty, _, _, passed => [.stop passed]
  | one set, _, next, _ => [.take set next]
  | anchor a, _, _, passed => if a.holds place then [.stop passed] else []
  | seq p q, n, next, passed =>
    Move.followedBy (p.moves remember place n ((n + p.choices, q) :: next) passed)
      (q.moves remember place (n + p.choices) next)
  | alt p q, n, next, passed =>
    pass remember n passed fun passed =>
      p.moves remember place (n + 1) next passed ++
        q.moves remember place (n + 1 + p.choices) next passed
  | opt greedy p, n, next, passed =>
    pass remember n passed fun passed =>
      Move.orStop greedy (p.moves remember place (n + 1) next passed) passed
  | star greedy p, n, next, passed =>
    pass remember n passed fun passed =>
      Move.orStop greedy
        (Move.taking (p.moves remember place (n + 1) ((n, star greedy p) :: next) passed)) passed
  | plus greedy p, n, next, passed =>
    Move.followedBy (p.moves remember place (n + 1) ((n, star greedy p) :: next) passed)
      fun passed => pass remember n passed fun passed => [.stop passed]

end Pattern

namespace Thread

/-- The moves of a thread at a place, given the choices passed since the last character. -/
def moves (remember : Bool) (place : Place) : Thread → List Nat → List Move
  | [], passed => [.stop passed]
  | (n, p) :: next, passed =>
    Move.followedBy (p.moves remember place n next passed) (moves remember place next)

/-- Where the preferred match of some threads ends if there is one, and `best` otherwise. -/
def race (remember : Bool) (best : Option Place) :
    List Thread → Option Char → List Char → Option Place
  | [], _, _ => best
  | threads, before, rest =>
    let place : Place := ⟨before, rest⟩
    let moves := threads.flatMap fun t => t.moves remember place []
    let best := if moves.any Move.isStop then some place else best
    match rest with
    | [] => best
    | c :: rest =>
      let ahead := moves.takeWhile fun m => !m.isStop
      race remember best (ahead.filterMap (Move.next? c)).eraseDups (some c) rest

end Thread

namespace Pattern

/-- Where the match from a place ends. -/
def finish? (pattern : Pattern) (place : Place) : Option Place :=
  Thread.race pattern.hasIdleRounds none [[(0, pattern)]] place.before place.rest

/-- Where the match from the leftmost possible place ends. -/
def searchFrom (pattern : Pattern) : Option Char → List Char → Option Place
  | before, [] => finish? pattern ⟨before, []⟩
  | before, c :: rest =>
    (finish? pattern ⟨before, c :: rest⟩).orElse fun _ => searchFrom pattern (some c) rest

/-- Where the leftmost match in a text ends. -/
def search (pattern : Pattern) (text : List Char) : Option Place :=
  if pattern.startsText then finish? pattern (.start text) else searchFrom pattern none text

/-- The number of characters up to the end of the leftmost match. -/
def matchEnd? (pattern : Pattern) (text : List Char) : Option Nat :=
  (search pattern text).map fun p => text.length - p.rest.length

/-- Whether the pattern matches somewhere in the text. -/
def isMatch (pattern : Pattern) (text : List Char) : Bool := (search pattern text).isSome

theorem moves_of_startsText {remember : Bool} {pattern : Pattern} (h : pattern.startsText)
    (c : Char) (rest : List Char) (n : Nat) (next : Thread) (passed : List Nat) :
    pattern.moves remember ⟨some c, rest⟩ n next passed = [] := by
  induction pattern generalizing n next passed with
  | empty | one | opt | star => simp [startsText] at h
  | anchor a => cases a <;> simp_all [startsText, moves, Anchor.holds]
  | seq p q ihp _ => simp [moves, Move.followedBy, ihp h]
  | alt p q ihp ihq =>
    simp only [startsText, Bool.and_eq_true] at h
    simp only [moves, ihp h.1, ihq h.2, pass, List.append_nil]
    split <;> simp
  | plus _ p ih => simp [moves, Move.followedBy, ih h]

theorem finish?_of_startsText {pattern : Pattern} (h : pattern.startsText) (c : Char)
    (rest : List Char) : pattern.finish? ⟨some c, rest⟩ = none := by
  have hm := fun remember => @moves_of_startsText remember pattern h c rest 0 [] []
  cases rest <;> simp [finish?, Thread.race, Thread.moves, Move.followedBy, hm]

/-- For a pattern tied to the start of the text, the search at the start is the whole search. -/
theorem search_eq (pattern : Pattern) (text : List Char) :
    pattern.search text = pattern.searchFrom none text := by
  have tail (c : Char) (rest : List Char) (h : pattern.startsText) :
      pattern.searchFrom (some c) rest = none := by
    induction rest generalizing c with
    | nil => simp [searchFrom, finish?_of_startsText h]
    | cons d rest ih => simp [searchFrom, finish?_of_startsText h, ih]
  unfold search
  split
  · next h => cases text <;> simp_all [searchFrom, Place.start]
  · rfl

theorem matchEnd?_le {pattern : Pattern} {text : List Char} {n : Nat}
    (h : pattern.matchEnd? text = some n) : n ≤ text.length := by
  obtain ⟨p, -, rfl⟩ := Option.map_eq_some_iff.1 h
  exact Nat.sub_le ..

end Pattern

end Criteria
