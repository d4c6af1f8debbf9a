/-!
# Sets of characters, as ranges of code points

A character class of Unicode is a list of inclusive ranges in ascending order.
Looking a code point up walks the list and stops at the first range that lies
wholly above it, so the ASCII part of a large table is cheap.
-/

namespace TextGrammar

/-- Inclusive ranges of code points, ascending and disjoint. -/
abbrev CodeRanges := List (Nat × Nat)

/-- Whether a code point lies in one of the ranges. -/
def CodeRanges.has : CodeRanges → Nat → Bool
  | [], _ => false
  | (low, high) :: rest, n => if n < low then false else n ≤ high || CodeRanges.has rest n

end TextGrammar
