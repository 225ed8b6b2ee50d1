import GoGloss.Grammar.Levels

/-!
# Fragments

A source is read as one expression, one declaration or one statement, and has to
be used up. Only a source without flaws is accepted; otherwise the failure lists
the flaws, and after them the first syntax fault.
-/

namespace GoGloss

open Grammar

variable {α : Type}

/-- What was read from a source, and all the nodes made on the way. -/
structure Fragment (α : Type) where
  root : α
  bench : Workbench

namespace Grammar

variable {β : Type}

/-- One semicolon, if one is ahead. -/
abbrev semicolonRound (_ : Unit) : Reader β (Option Unit) := do
  if ← eats (.mark .semicolon) then return some () else return none

/-- Takes all semicolons ahead. -/
def skipSemicolons : Reader β Unit := extend semicolonRound ()

/-- What is to be read and nothing else; a line may end after it. -/
abbrev Body.wholeExpr (expr : Reader β α) : Reader β α := do
  let x ← expr
  if (← get).head.isLineEnd then discard take
  discard <| expect .eof
  return x

/-- What is to be read and nothing else but semicolons. -/
abbrev Body.ended (skipSemicolons : Reader β Unit) (p : Reader β α) : Reader β α := do
  let a ← p
  expectEnd
  skipSemicolons
  discard <| expect .eof
  return a

/-- An expression and nothing else; a line may end after it. -/
def wholeExpr : Parser Expr := Body.wholeExpr (expr (inner maxDepth))

/-- A declaration and nothing else but semicolons. -/
def wholeDecl : Parser Decl := Body.ended skipSemicolons (decl (inner maxDepth))

/-- A statement and nothing else but semicolons. -/
def wholeStmt : Parser Stmt := Body.ended skipSemicolons (stmt (inner maxDepth))

end Grammar

namespace Fragment

/-- Reads a whole source. -/
def read (p : Parser α) (src : String) : Except Failure (Fragment α) :=
  let lexemes := tokenize src
  let flaws := lexicalDiagnostics lexemes
  match p (Cursor.start lexemes src.utf8ByteSize) with
  | .ok root c => if flaws.isEmpty then .ok ⟨root, c.bench⟩ else .error (Failure.of src flaws)
  | .error e _ => .error (Failure.of src (flaws ++ [e.diagnostic]))

end Fragment

/-- Reads a source as an expression; types are expressions. -/
def parseExpr (src : String) : Except Failure (Fragment Expr) :=
  Fragment.read wholeExpr src

/-- Reads a source as a declaration. -/
def parseDecl (src : String) : Except Failure (Fragment Decl) :=
  Fragment.read wholeDecl src

/-- Reads a source as a statement. -/
def parseStmt (src : String) : Except Failure (Fragment Stmt) :=
  Fragment.read wholeStmt src

end GoGloss
