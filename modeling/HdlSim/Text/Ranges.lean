/-!
# Ranges of code points

Tables of character properties are lists of closed ranges in increasing order.
-/

namespace HdlSim.Text

/-- Whether a code point lies in one of the ranges; they increase, so the search ends at the first
range that is not below the code point. -/
def inRanges : List (Nat × Nat) → Nat → Bool
  | [], _ => false
  | (lo, hi) :: rest, n => if n ≤ hi then lo ≤ n else inRanges rest n

end HdlSim.Text
