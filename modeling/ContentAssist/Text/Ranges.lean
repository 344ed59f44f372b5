/-! # Ranges of code points

A class of characters is given by ascending ranges of code points. -/

namespace ContentAssist.Text

/-- Whether `n` lies in one of the ranges, each given by its first and last member. -/
def inRanges (ranges : List (Nat × Nat)) (n : Nat) : Bool :=
  ranges.any fun r => r.1 ≤ n && n ≤ r.2

/-- Whether `n` lies in one of the progressions, each given by first member, last member and step.
-/
def inProgressions (progressions : List (Nat × Nat × Nat)) (n : Nat) : Bool :=
  progressions.any fun p => p.1 ≤ n && n ≤ p.2.1 && (n - p.1) % p.2.2 == 0

end ContentAssist.Text
