/-!
# Ranges of characters

Classes of characters are given by ranges of code points.
-/

namespace Coverage.Text

/-- Whether a character lies in one of some ranges, both ends of which are included. -/
def inRanges (ranges : List (Nat × Nat)) (c : Char) : Bool :=
  ranges.any fun (first, last) => first ≤ c.toNat && c.toNat ≤ last

end Coverage.Text
