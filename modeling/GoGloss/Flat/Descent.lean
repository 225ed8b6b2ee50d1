import GoGloss.Flat.Arena
import GoGloss.Grammar.Block

/-!
# Building an arena

The steps that a reader takes to keep nodes in an arena, and the productions it may
enter one level further in. All else (looking ahead, taking tokens, counting levels,
repetition) does not depend on how nodes are kept and is shared with the reader of
trees.
-/

namespace GoGloss.Flat

open Grammar

/-- A reader of part of a fragment that builds an arena. -/
abbrev Builder := Reader Arena

/-- Puts a node into the arena. -/
def alloc {k : Kind} (node : k.Node) (span : Span) : Builder (NodeId k) :=
  modifyGet fun c => (⟨c.bench.size k⟩, { c with bench := c.bench.alloc node span })

def allocExpr (node : ExprNode) (span : Span) : Builder ExprId := alloc node span
def allocStmt (node : StmtNode) (span : Span) : Builder StmtId := alloc node span
def allocDecl (node : DeclNode) (span : Span) : Builder DeclId := alloc node span
def allocField (node : FieldNode) (span : Span) : Builder FieldId := alloc node span

/-- Puts a list on its shelf. -/
def shelve {s : Shelf} (items : List s.Item) : Builder (ListRef s) :=
  modifyGet fun c =>
    (⟨(c.bench.buffer s).size, items.length⟩, { c with bench := c.bench.append items })

def shelveIdents (items : List Ident) : Builder (ListRef .idents) := shelve items
def shelveExprs (items : List ExprId) : Builder (ListRef .exprs) := shelve items
def shelveStmts (items : List StmtId) : Builder (ListRef .stmts) := shelve items
def shelveFields (items : List FieldId) : Builder (ListRef .fields) := shelve items
def shelveSpecs (items : List SpecNode) : Builder (ListRef .specs) := shelve items

/-- The number of a symbol, which is a new one if its text has not appeared before. -/
def intern (text : String) : Builder Nat :=
  modifyGet fun c => ((c.bench.symbols.intern text).1, { c with bench := c.bench.note text })

/-- Takes an identifier. -/
def ident : Builder Ident := do
  match ← peek with
  | .name text =>
    let pos ← take
    return ⟨← intern text, pos⟩
  | _ => failExpected .name

/-- One or more identifiers with commas between them. -/
def identList : Builder (List Ident) :=
  commaList ident

/-- The arena so far. -/
def arena : Builder Arena := do
  return (← get).bench

/-- The productions that may be entered one level further in. -/
structure Inner where
  /-- A binary expression whose operators bind at least as tightly as given. -/
  binary : Nat → Builder ExprId
  /-- An operand with the operators in front of it. -/
  unary : Builder ExprId
  /-- A type, if one starts here. -/
  type? : Builder (Option ExprId)
  /-- The braces of a composite literal of some type, which starts at an offset. -/
  literalValue : Option ExprId → Nat → Builder ExprId
  /-- A statement. -/
  stmt : Builder StmtId
  /-- An `if` statement. -/
  ifStmt : Builder StmtId

variable (inner : Inner)

/-- An expression. -/
def expr : Builder ExprId :=
  nested (inner.binary 1)

/-- One or more expressions with commas between them. -/
def exprList : Builder (List ExprId) :=
  commaList (expr inner)

/-- An operand under an operator. -/
def operandUnder : Builder ExprId :=
  nested inner.unary

/-- A type, if one starts here. -/
def type? : Builder (Option ExprId) :=
  nested inner.type?

/-- A type. -/
def type : Builder ExprId :=
  Body.type .type (type? inner)

/-- A statement, without the semicolon that ends it. -/
def stmt : Builder StmtId :=
  nested inner.stmt

/-- Statements up to a closing brace or the next clause. -/
def stmtList : Builder (ListRef .stmts) := do
  let ss ← collect (Body.stmtRound (stmt inner))
  shelveStmts ss

/-- Statements in braces. -/
def block : Builder BlockNode := do
  let lbrace ← expect (.mark .lbrace)
  let stmts ← stmtList inner
  let rbrace ← expect (.mark .rbrace)
  return ⟨lbrace, stmts, rbrace⟩

end GoGloss.Flat
