/-!
# Sets of characters as ranges

A class of characters that a standard lists as code point ranges is kept as that
list, in increasing order.
-/

namespace GoGloss.Character

/-- Whether a code point lies in one of the ranges, ends included. -/
def inRanges (ranges : List (Nat × Nat)) (n : Nat) : Bool :=
  match ranges with
  | [] => false
  | (lo, hi) :: rest => n >= lo && (n <= hi || inRanges rest n)

/-- Whether one of the ranges has a code point in common with `block`. -/
def meetsRanges (ranges : List (Nat × Nat)) (block : Nat × Nat) : Bool :=
  ranges.any fun range => range.1 ≤ block.2 && block.1 ≤ range.2

end GoGloss.Character
