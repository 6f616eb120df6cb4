/-!
# Increasing ranges of code points

A property of characters is written as a list of closed ranges of code points, the smallest first.
`Ranges.contains` stops at the first range that lies above the character, which is right because
the ranges increase.
-/

namespace Criteria.Text

/-- Closed ranges of code points, disjoint and increasing. -/
abbrev Ranges := List (Nat × Nat)

/-- Whether a code point lies in one of the ranges. -/
def Ranges.contains : Ranges → Nat → Bool
  | [], _ => false
  | (low, high) :: rest, n => if n < low then false else n ≤ high || Ranges.contains rest n

/-- The code points where membership may begin or end. -/
def Ranges.edges (ranges : Ranges) : List Nat :=
  ranges.flatMap fun (low, high) => [low, high + 1]

@[simp] theorem Ranges.contains_nil (n : Nat) : Ranges.contains [] n = false := rfl

theorem Ranges.contains_cons (low high : Nat) (rest : Ranges) (n : Nat) :
    Ranges.contains ((low, high) :: rest) n =
      if n < low then false else n ≤ high || Ranges.contains rest n := rfl

end Criteria.Text
