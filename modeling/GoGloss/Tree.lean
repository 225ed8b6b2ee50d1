import GoGloss.Operator
import GoGloss.Span

/-!
# Trees

A fragment of Go as a tree. Types are expressions, since the two are written
alike: `*T` is a star in front of an operand whether it names a pointer type or
follows a pointer. Parentheses stay in the tree.

Every node knows the span it was read from, and the places of those of its tokens
that are not nodes themselves. Names and literals carry their text. While all offsets
fit into a span, that of a literal is what the source has under its span.

The types are wider than the grammar. A node may be `bad`, and a function
declaration may have any expression where a signature belongs; such trees are
built by hand, never read.
-/

namespace GoGloss

/-- An identifier and where it stands. -/
structure Name where
  text : String
  pos : Span
deriving DecidableEq, Repr

/-- A number, rune or string as it is written. -/
structure Literal where
  kind : LiteralKind
  span : Span
  text : String
deriving DecidableEq, Repr

/-- What an import calls its package. -/
inductive ImportName where
  /-- A dot: the package's names are used as one's own. -/
  | dot (pos : Span)
  /-- An underscore: the package is imported for what it does when loaded. -/
  | blank (pos : Span)
  | name (name : Name)
deriving DecidableEq, Repr

mutual

/-- An expression or a type. -/
inductive Expr where
  | ident (name : Name)
  | literal (literal : Literal)
  /-- `func(x int) int { … }` -/
  | funcLit (span : Span) (type : Expr) (body : Block)
  /-- `T{ … }`, without a type only inside another literal. -/
  | composite (span : Span) (type : Option Expr) (lbrace : Span) (elements : List Expr)
      (rbrace : Span)
  | paren (span lparen : Span) (inner : Expr) (rparen : Span)
  /-- `x.y` -/
  | selector (span : Span) (operand : Expr) (member : Name)
  /-- `x[i]` -/
  | index (span : Span) (operand index : Expr)
  /-- `x[i, j]` -/
  | indexList (span : Span) (operand : Expr) (indices : List Expr)
  /-- `x[lo:hi]`, or `x[lo:hi:max]` when `full`. -/
  | slice (span : Span) (operand : Expr) (lo hi max : Option Expr) (full : Bool)
  /-- `x.(T)`, or `x.(type)` without a type. -/
  | typeAssert (span : Span) (operand : Expr) (type : Option Expr)
  /-- `f(x, y)`, with the place of the dots in `f(x, y...)`. -/
  | call (span : Span) (callee : Expr) (args : List Expr) (dots : Option Span)
  /-- `*x` -/
  | star (span pos : Span) (operand : Expr)
  | unary (span : Span) (op : UnaryOp) (opPos : Span) (operand : Expr)
  | binary (span : Span) (left : Expr) (op : BinaryOp) (opPos : Span) (right : Expr)
  /-- `key: value` inside a composite literal. -/
  | keyValue (span : Span) (key : Expr) (colon : Span) (value : Expr)
  /-- `[n]T`, or `[]T` without a length. -/
  | arrayType (span : Span) (length : Option Expr) (elem : Expr)
  | structType (span : Span) (fields : List Field)
  /-- A signature; the methods of an interface have no `func` in front of theirs. -/
  | funcType (span : Span) (func : Option Span) (params results : List Field)
  | interfaceType (span : Span) (members : List Field)
  | mapType (span : Span) (key value : Expr)
  | chanType (span : Span) (dir : ChanDir) (elem : Expr)
  /-- `...T` as a parameter's type, `...` alone as an array's length. -/
  | ellipsis (span pos : Span) (elem : Option Expr)
  | bad (span : Span)

/-- Names of one type: parameters, results, the fields of a struct, members of an interface. -/
structure Field where
  span : Span
  names : List Name
  type : Expr
  tag : Option Literal

/-- Statements between braces. -/
structure Block where
  lbrace : Span
  stmts : List Stmt
  rbrace : Span

/-- A statement, or a clause of a `switch` or `select`. -/
inductive Stmt where
  | empty (span : Span)
  | expr (span : Span) (expr : Expr)
  | decl (span : Span) (decl : Decl)
  | assign (span : Span) (lhs : List Expr) (op : AssignOp) (opPos : Span) (rhs : List Expr)
  | send (span : Span) (chan : Expr) (opPos : Span) (value : Expr)
  | step (span : Span) (operand : Expr) (op : StepOp) (opPos : Span)
  | labeled (span : Span) (label : Name) (stmt : Stmt)
  | go (span pos : Span) (call : Expr)
  | defer (span pos : Span) (call : Expr)
  | ret (span pos : Span) (results : List Expr)
  | jump (span : Span) (kind : Jump) (label : Option Name)
  | block (span : Span) (body : Block)
  | ifElse (span : Span) (init : Option Stmt) (cond : Expr) (body : Block)
      (otherwise : Option Stmt)
  | loop (span : Span) (init : Option Stmt) (cond : Option Expr) (post : Option Stmt)
      (body : Block)
  | range (span : Span) (key value : Option Expr) (op : Option AssignOp) (operand : Expr)
      (body : Block)
  | switch (span : Span) (init : Option Stmt) (tag : Option Expr) (body : Block)
  | typeSwitch (span : Span) (init : Option Stmt) (guard : Stmt) (body : Block)
  | select (span : Span) (body : Block)
  /-- `case x, y:` of a `switch`, or `default:` without expressions. -/
  | caseClause (span : Span) (exprs : List Expr) (body : List Stmt)
  /-- `case` with a statement in a `select`, or `default:` without one. -/
  | commClause (span : Span) (comm : Option Stmt) (body : List Stmt)
  | bad (span : Span)

/-- A declaration. -/
inductive Decl where
  /-- One of `import`, `const`, `type` and `var`, with its parentheses if it has them. -/
  | group (span : Span) (word : DeclWord) (wordPos : Span) (lparen : Option Span)
      (specs : List Spec) (rparen : Option Span)
  | func (span funcPos : Span) (receiver : Option (List Field)) (name : Name) (type : Expr)
      (body : Option Block)
  | bad (span : Span)

/-- One line of a declaration. -/
inductive Spec where
  | importing (name : Option ImportName) (path : Literal)
  | value (names : List Name) (type : Option Expr) (values : List Expr)
  | type (name : Name) (assign : Option Span) (type : Expr)

end

instance : Inhabited Expr := ⟨.bad default⟩
instance : Inhabited Stmt := ⟨.bad default⟩
instance : Inhabited Decl := ⟨.bad default⟩
instance : Inhabited Block := ⟨⟨default, [], default⟩⟩

namespace Expr

/-- The bytes an expression was read from. -/
def span : Expr → Span
  | .ident n => n.pos
  | .literal lit => lit.span
  | .funcLit span .. | .composite span .. | .paren span .. | .selector span ..
  | .index span .. | .indexList span .. | .slice span .. | .typeAssert span ..
  | .call span .. | .star span .. | .unary span .. | .binary span .. | .keyValue span ..
  | .arrayType span .. | .structType span .. | .funcType span .. | .interfaceType span ..
  | .mapType span .. | .chanType span .. | .ellipsis span .. | .bad span => span

/-- The expression inside any number of parentheses. -/
def unparen : Expr → Expr
  | .paren _ _ inner _ => inner.unparen
  | x => x

/-- Whether an expression is the guard `x.(type)`. -/
def isTypeGuard : Expr → Bool
  | .typeAssert _ _ none => true
  | _ => false

/-- Whether an expression is a call, parentheses aside. -/
def isCall (x : Expr) : Bool :=
  x.unparen matches .call ..

end Expr

/-- How many things a list of fields declares; a field without names counts once. -/
def fieldCount : List Field → Nat
  | [] => 0
  | f :: fields => max f.names.length 1 + fieldCount fields

namespace Stmt

/-- The bytes a statement was read from. -/
def span : Stmt → Span
  | .empty span | .expr span _ | .decl span _ | .assign span .. | .send span .. | .step span ..
  | .labeled span .. | .go span .. | .defer span .. | .ret span .. | .jump span ..
  | .block span _ | .ifElse span .. | .loop span .. | .range span .. | .switch span ..
  | .typeSwitch span .. | .select span _ | .caseClause span .. | .commClause span ..
  | .bad span => span

/-- The name of a statement's kind. -/
def kindName : Stmt → String
  | .empty _ => "EmptyStmt"
  | .expr .. => "ExprStmt"
  | .decl .. => "DeclStmt"
  | .assign .. => "AssignStmt"
  | .send .. => "SendStmt"
  | .step .. => "IncDecStmt"
  | .labeled .. => "LabeledStmt"
  | .go .. => "GoStmt"
  | .defer .. => "DeferStmt"
  | .ret .. => "ReturnStmt"
  | .jump .. => "BranchStmt"
  | .block .. => "BlockStmt"
  | .ifElse .. => "IfStmt"
  | .loop .. => "ForStmt"
  | .range .. => "RangeStmt"
  | .switch .. => "SwitchStmt"
  | .typeSwitch .. => "TypeSwitchStmt"
  | .select .. => "SelectStmt"
  | .caseClause .. => "CaseClause"
  | .commClause .. => "CommClause"
  | .bad _ => "BadStmt"

/-- Whether a statement guards a type switch: `x.(type)` or `v := x.(type)`. -/
def isTypeGuard : Stmt → Bool
  | .expr _ x => x.isTypeGuard
  | .assign _ [_] .define _ [x] => x.isTypeGuard
  | _ => false

end Stmt

/-- The bytes a declaration was read from. -/
def Decl.span : Decl → Span
  | .group span .. | .func span .. | .bad span => span

/-- How many names a line of a declaration declares. -/
def Spec.nameCount : Spec → Nat
  | .importing .. => 0
  | .value names .. => names.length
  | .type .. => 1

end GoGloss
