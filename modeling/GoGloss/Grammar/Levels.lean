import GoGloss.Grammar.Statements

/-!
# Levels

Ties the productions together. `inner n` can be entered `n` levels deep; its
productions are given `inner (n - 1)`. Since entering a level is counted, and
refused beyond `maxDepth`, a reader that starts with `inner maxDepth` meets the
limit before it runs out of levels.
-/

namespace GoGloss.Grammar

/-- No production can be entered any more. -/
def Inner.none : Inner where
  binary _ := failHere .tooDeep
  unary := failHere .tooDeep
  type? := failHere .tooDeep
  literalValue _ _ := failHere .tooDeep
  stmt := failHere .tooDeep
  ifStmt := failHere .tooDeep

/-- The productions on top of those one level further in. -/
def Inner.over (deeper : Inner) : Inner where
  binary := Grammar.binary deeper
  unary := Grammar.unary deeper
  type? := typeHere? deeper
  literalValue := Grammar.literalValue deeper
  stmt := stmtHere deeper
  ifStmt := Grammar.ifStmt deeper

/-- The productions for `n` more levels. -/
def inner : Nat → Inner
  | 0 => Inner.none
  | n + 1 => Inner.over (inner n)

end GoGloss.Grammar
