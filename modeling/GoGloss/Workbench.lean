import GoGloss.Symbols
import GoGloss.Tree

/-!
# The workbench

Every node that is made, by the reader or by hand, is put on a workbench, which
keeps the nodes of each kind in the order of their making and numbers the names
they use. A node is made from nodes that lie on the bench already, so it never
contains one with a higher number.

Some nodes stay on the bench without becoming part of the tree: what was read as
an expression or a statement and turned out to be a label or a condition.
-/

namespace GoGloss

/-- All nodes made so far, each kind numbered from zero, and the names in use. -/
structure Workbench where
  exprs : Array Expr := #[]
  stmts : Array Stmt := #[]
  decls : Array Decl := #[]
  fields : Array Field := #[]
  symbols : Symbols := .empty

namespace Workbench

instance : Inhabited Workbench := ⟨{}⟩

/-- Puts an expression on the bench. -/
def addExpr (w : Workbench) (x : Expr) : Workbench :=
  { w with exprs := w.exprs.push x }

/-- Puts a statement on the bench. -/
def addStmt (w : Workbench) (s : Stmt) : Workbench :=
  { w with stmts := w.stmts.push s }

/-- Puts a declaration on the bench. -/
def addDecl (w : Workbench) (d : Decl) : Workbench :=
  { w with decls := w.decls.push d }

/-- Puts a field on the bench. -/
def addField (w : Workbench) (f : Field) : Workbench :=
  { w with fields := w.fields.push f }

/-- Takes note of a name. -/
def addName (w : Workbench) (text : String) : Workbench :=
  { w with symbols := (w.symbols.intern text).2 }

end Workbench

end GoGloss
