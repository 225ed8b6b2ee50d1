import GoGloss.Source

/-!
# Positions

People read positions as a line and a column. Both count from one; lines end at
a line feed only, and columns count bytes, so an offset inside a character has a
column of its own. An offset past the end of the text is taken for the end.
-/

namespace GoGloss

/-- A line and a column, both counted from one. -/
structure Position where
  line : Nat
  column : Nat
deriving DecidableEq, Repr, Inhabited

namespace Position

/-- The position of the first byte. -/
def first : Position := ⟨1, 1⟩

/-- The position right after `c` when `c` stands at `p`. -/
def after (p : Position) (c : Char) : Position :=
  if c = '\n' then ⟨p.line + 1, 1⟩ else ⟨p.line, p.column + c.utf8Size⟩

/-- The position `offset` bytes further on, in a text that starts at `p`. -/
def advance (p : Position) : Nat → List Char → Position
  | _, [] => p
  | offset, c :: cs =>
    if c.utf8Size ≤ offset then advance (p.after c) (offset - c.utf8Size) cs
    else ⟨p.line, p.column + offset⟩

/-- The position of a byte offset in a source. -/
def locate (src : String) (offset : Nat) : Position :=
  first.advance offset src.toList

end Position

end GoGloss
