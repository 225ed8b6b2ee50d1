import GoGloss.Flat.Statements
import GoGloss.Fragment

/-!
# Fragments in flat form

The productions tied together level by level, as those that make trees are, and a
whole source read into an arena.
-/

namespace GoGloss.Flat

open Grammar

/-- No production can be entered any more. -/
def Inner.none : Inner where
  binary _ := failHere .tooDeep
  unary := failHere .tooDeep
  type? := failHere .tooDeep
  literalValue _ _ := failHere .tooDeep
  stmt := failHere .tooDeep
  ifStmt := failHere .tooDeep

/-- The productions on top of those one level further in. -/
def Inner.over (deeper : Inner) : Inner where
  binary := Flat.binary deeper
  unary := Flat.unary deeper
  type? := typeHere? deeper
  literalValue := Flat.literalValue deeper
  stmt := stmtHere deeper
  ifStmt := Flat.ifStmt deeper

/-- The productions for `n` more levels. -/
def inner : Nat → Inner
  | 0 => Inner.none
  | n + 1 => Inner.over (inner n)

/-- An expression and nothing else; a line may end after it. -/
def wholeExpr : Builder ExprId := Body.wholeExpr (expr (inner maxDepth))

/-- A declaration and nothing else but semicolons. -/
def wholeDecl : Builder DeclId := Body.ended skipSemicolons (decl (inner maxDepth))

/-- A statement and nothing else but semicolons. -/
def wholeStmt : Builder StmtId := Body.ended skipSemicolons (stmt (inner maxDepth))

/-- What was read from a source: an arena, and the number of the root in it. -/
structure Fragment (k : Kind) where
  root : NodeId k
  arena : Arena

/-- Reads a whole source. -/
def Fragment.read {k : Kind} (p : Builder (NodeId k)) (src : String) :
    Except Failure (Fragment k) :=
  let lexemes := tokenize src
  let flaws := lexicalDiagnostics lexemes
  match p { rest := lexemes, sourceEnd := src.utf8ByteSize, bench := {} } with
  | .ok root c => if flaws.isEmpty then .ok ⟨root, c.bench⟩ else .error (Failure.of src flaws)
  | .error e _ => .error (Failure.of src (flaws ++ [e.diagnostic]))

/-- Reads a source as an expression; types are expressions. -/
def parseExpr (src : String) : Except Failure (Fragment .expr) :=
  Fragment.read wholeExpr src

/-- Reads a source as a declaration. -/
def parseDecl (src : String) : Except Failure (Fragment .decl) :=
  Fragment.read wholeDecl src

/-- Reads a source as a statement. -/
def parseStmt (src : String) : Except Failure (Fragment .stmt) :=
  Fragment.read wholeStmt src

end GoGloss.Flat
