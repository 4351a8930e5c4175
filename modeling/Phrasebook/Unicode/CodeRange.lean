/-! Sets of characters as ascending lists of ranges of code points. -/

namespace Phrasebook.Unicode

/-- The first and the last code point of a range. -/
abbrev CodeRange := Nat × Nat

/-- Whether a code point lies in one of the ranges, which ascend. -/
def inRanges (code : Nat) : List CodeRange → Bool
  | [] => false
  | (first, last) :: rest =>
    if code < first then false else if code ≤ last then true else inRanges code rest

end Phrasebook.Unicode
