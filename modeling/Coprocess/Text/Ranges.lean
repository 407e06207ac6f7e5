/-!
# Classes of characters

A class of characters is given by the ranges of its code points.

* `inRanges`: a code point belongs to a class.
-/

namespace Coprocess.Text

/-- A code point lies in one of some ranges, whose both ends are included. -/
def inRanges (ranges : Array (Nat × Nat)) (n : Nat) : Bool :=
  ranges.any fun (first, last) => first ≤ n && n ≤ last

end Coprocess.Text
