/-!
# Ranges of characters

A character class given as a table of closed ranges of code points.
-/

namespace Interlingua.Text

/-- Whether a character lies in one of some closed ranges of code points. -/
def inRanges (ranges : List (Nat × Nat)) (c : Char) : Bool :=
  ranges.any fun (low, high) => low ≤ c.toNat && c.toNat ≤ high

end Interlingua.Text
