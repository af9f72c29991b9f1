/-!
Classes of characters given by ranges of code points.
-/

namespace TopicQuery.Text

/-- A code point lies in one of the ranges, both ends included. -/
def inRanges (ranges : List (Nat × Nat)) (n : Nat) : Bool :=
  ranges.any fun (first, last) => first ≤ n && n ≤ last

end TopicQuery.Text
