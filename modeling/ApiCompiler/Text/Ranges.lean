/-!
# Text — ranges of code points

A character class of the Unicode standard is a list of disjoint ranges, rising.
-/

namespace ApiCompiler.Text

/-- Whether `c` lies in one of the ranges, ends included. -/
def inRanges (ranges : List (Nat × Nat)) (c : Char) : Bool :=
  ranges.any fun r => r.1 ≤ c.toNat && c.toNat ≤ r.2

end ApiCompiler.Text
