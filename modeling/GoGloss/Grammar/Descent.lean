import GoGloss.Grammar.Repetition

/-!
# Descent

Productions of the grammar contain one another: an expression holds types, a type
holds expressions, a function literal holds statements. Every way round such a
circle goes at least one level deeper, so a production never needs itself, only
the productions one level further in. It is handed those as an `Inner`, and the
productions themselves are plain definitions, in whatever order suits.

What a production does is its body, which is handed every reader it uses: those on
its own level, those further in and its repetitions. The production is its body with
the productions of an `Inner` in their place.
-/

namespace GoGloss.Grammar

/-- The productions that may be entered one level further in. -/
structure Inner where
  /-- A binary expression whose operators bind at least as tightly as given. -/
  binary : Nat → Parser Expr
  /-- An operand with the operators in front of it. -/
  unary : Parser Expr
  /-- A type, if one starts here. -/
  type? : Parser (Option Expr)
  /-- The braces of a composite literal of some type, which starts at an offset. -/
  literalValue : Option Expr → Nat → Parser Expr
  /-- A statement. -/
  stmt : Parser Stmt
  /-- An `if` statement. -/
  ifStmt : Parser Stmt

variable {β ε : Type} (inner : Inner)

/-- An expression. -/
def expr : Parser Expr :=
  nested (inner.binary 1)

/-- One or more expressions with commas between them. -/
def exprList : Parser (List Expr) :=
  commaList (expr inner)

/-- An operand under an operator. -/
def operandUnder : Parser Expr :=
  nested inner.unary

/-- A type, if one starts here. -/
def type? : Parser (Option Expr) :=
  nested inner.type?

/-- A type where something is wanted that it may be. -/
abbrev Body.type (wanted : Wanted) (type? : Reader β (Option ε)) : Reader β ε := do
  match ← type? with
  | some t => return t
  | none => failExpected wanted

/-- A type. -/
def type : Parser Expr := Body.type .type (type? inner)

/-- A statement, without the semicolon that ends it. -/
def stmt : Parser Stmt :=
  nested inner.stmt

end GoGloss.Grammar
