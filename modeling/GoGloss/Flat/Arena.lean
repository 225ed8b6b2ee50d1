import GoGloss.Symbols
import GoGloss.Tree

/-!
# Arenas

A tree in flat form. The nodes of each kind lie in a row, in the order of their
making, and refer to one another by number. Lists lie on shelves that only grow: a
list is put at the end of its shelf once and for all, and a node keeps where it
starts and how long it is. A name is kept as the number of its symbol, a literal as
its place in the source, and the span of a node beside the node.

Nothing here says that a number is one that was given out, or that a list lies on
its shelf. That it is so in what the reader builds is a theorem about the reader.
-/

namespace GoGloss.Flat

/-- The kinds of nodes. -/
inductive Kind where
  | expr | stmt | decl | field
deriving DecidableEq, Repr

/-- The number of a node among those of its kind. -/
structure NodeId (k : Kind) where
  raw : Nat
deriving DecidableEq, Repr

abbrev ExprId := NodeId .expr
abbrev StmtId := NodeId .stmt
abbrev DeclId := NodeId .decl
abbrev FieldId := NodeId .field

/-- The number of a node of any kind. -/
structure AnyId where
  kind : Kind
  raw : Nat
deriving DecidableEq, Repr

/-- A number without its kind in the type. -/
def NodeId.any {k : Kind} (i : NodeId k) : AnyId := ⟨k, i.raw⟩

/-- The shelves that lists lie on. -/
inductive Shelf where
  | idents | exprs | stmts | fields | specs
deriving DecidableEq, Repr

/-- Where on its shelf a list starts, and how many items it has. -/
structure ListRef (s : Shelf) where
  start : Nat
  len : Nat
deriving DecidableEq, Repr

/-- A list without items, which lies on any shelf. -/
def ListRef.empty {s : Shelf} : ListRef s := ⟨0, 0⟩

/-- An identifier as the number of its symbol, and where it stands. -/
structure Ident where
  sym : Nat
  pos : Span
deriving DecidableEq, Repr

/-- A literal, whose text is that of its place in the source. -/
structure Lit where
  kind : LiteralKind
  raw : Span
deriving DecidableEq, Repr

/-- A literal without its text. -/
def Lit.of (lit : Literal) : Lit := ⟨lit.kind, lit.span⟩

/-- What an import calls its package. -/
inductive ImportIdent where
  | dot (pos : Span)
  | blank (pos : Span)
  | name (name : Ident)
deriving DecidableEq, Repr

/-! ## Nodes -/

/-- Statements between braces. -/
structure BlockNode where
  lbrace : Span
  stmts : ListRef .stmts
  rbrace : Span
deriving DecidableEq, Repr

/-- An expression or a type. -/
inductive ExprNode where
  | ident (name : Ident)
  | literal (literal : Lit)
  | funcLit (type : ExprId) (body : BlockNode)
  | composite (type : Option ExprId) (lbrace : Span) (elements : ListRef .exprs) (rbrace : Span)
  | paren (lparen : Span) (inner : ExprId) (rparen : Span)
  | selector (operand : ExprId) (member : Ident)
  | index (operand index : ExprId)
  | indexList (operand : ExprId) (indices : ListRef .exprs)
  | slice (operand : ExprId) (lo hi max : Option ExprId) (full : Bool)
  | typeAssert (operand : ExprId) (type : Option ExprId)
  | call (callee : ExprId) (args : ListRef .exprs) (dots : Option Span)
  | star (pos : Span) (operand : ExprId)
  | unary (op : UnaryOp) (opPos : Span) (operand : ExprId)
  | binary (left : ExprId) (op : BinaryOp) (opPos : Span) (right : ExprId)
  | keyValue (key : ExprId) (colon : Span) (value : ExprId)
  | arrayType (length : Option ExprId) (elem : ExprId)
  | structType (fields : ListRef .fields)
  | funcType (func : Option Span) (params results : ListRef .fields)
  | interfaceType (members : ListRef .fields)
  | mapType (key value : ExprId)
  | chanType (dir : ChanDir) (elem : ExprId)
  | ellipsis (pos : Span) (elem : Option ExprId)
  | bad (span : Span)
deriving DecidableEq, Repr

/-- Names of one type. -/
structure FieldNode where
  names : ListRef .idents
  type : ExprId
  tag : Option Lit
deriving DecidableEq, Repr

/-- A statement, or a clause of a `switch` or `select`. -/
inductive StmtNode where
  | empty (span : Span)
  | expr (expr : ExprId)
  | decl (decl : DeclId)
  | assign (lhs : ListRef .exprs) (op : AssignOp) (opPos : Span) (rhs : ListRef .exprs)
  | send (chan : ExprId) (opPos : Span) (value : ExprId)
  | step (operand : ExprId) (op : StepOp) (opPos : Span)
  | labeled (label : Ident) (stmt : StmtId)
  | go (pos : Span) (call : ExprId)
  | defer (pos : Span) (call : ExprId)
  | ret (pos : Span) (results : ListRef .exprs)
  | jump (kind : Jump) (label : Option Ident)
  | block (body : BlockNode)
  | ifElse (init : Option StmtId) (cond : ExprId) (body : BlockNode) (otherwise : Option StmtId)
  | loop (init : Option StmtId) (cond : Option ExprId) (post : Option StmtId) (body : BlockNode)
  | range (key value : Option ExprId) (op : Option AssignOp) (operand : ExprId)
      (body : BlockNode)
  | switch (init : Option StmtId) (tag : Option ExprId) (body : BlockNode)
  | typeSwitch (init : Option StmtId) (guard : StmtId) (body : BlockNode)
  | select (body : BlockNode)
  | caseClause (exprs : ListRef .exprs) (body : ListRef .stmts)
  | commClause (comm : Option StmtId) (body : ListRef .stmts)
  | bad (span : Span)
deriving DecidableEq, Repr

/-- One line of a declaration. Lines are no nodes; they lie on a shelf of their own. -/
inductive SpecNode where
  | importing (name : Option ImportIdent) (path : Lit)
  | value (names : ListRef .idents) (type : Option ExprId) (values : ListRef .exprs)
  | type (name : Ident) (assign : Option Span) (type : ExprId)
deriving DecidableEq, Repr

/-- A declaration. -/
inductive DeclNode where
  | group (word : DeclWord) (wordPos : Span) (lparen : Option Span) (specs : ListRef .specs)
      (rparen : Option Span)
  | func (funcPos : Span) (receiver : Option (ListRef .fields)) (name : Ident) (type : ExprId)
      (body : Option BlockNode)
  | bad (span : Span)
deriving DecidableEq, Repr

/-- The nodes of a kind. -/
@[reducible]
def Kind.Node : Kind → Type
  | .expr => ExprNode
  | .stmt => StmtNode
  | .decl => DeclNode
  | .field => FieldNode

/-- What lies on a shelf. -/
@[reducible]
def Shelf.Item : Shelf → Type
  | .idents => Ident
  | .exprs => ExprId
  | .stmts => StmtId
  | .fields => FieldId
  | .specs => SpecNode

/-! ## Arenas -/

/-- Nodes in a row, and beside each its span. -/
structure Store (α : Type) where
  nodes : Array α := #[]
  spans : Array Span := #[]

/-- A node and its span at the end of the row. -/
def Store.push {α : Type} (s : Store α) (node : α) (span : Span) : Store α :=
  ⟨s.nodes.push node, s.spans.push span⟩

/-- All nodes of a fragment, its lists, and the symbols of its names. -/
structure Arena where
  exprs : Store ExprNode := {}
  stmts : Store StmtNode := {}
  decls : Store DeclNode := {}
  fields : Store FieldNode := {}
  identLists : Array Ident := #[]
  exprLists : Array ExprId := #[]
  stmtLists : Array StmtId := #[]
  fieldLists : Array FieldId := #[]
  specLists : Array SpecNode := #[]
  symbols : Symbols := .empty

namespace Arena

/-- The nodes of a kind. -/
def store (a : Arena) : (k : Kind) → Store k.Node
  | .expr => a.exprs
  | .stmt => a.stmts
  | .decl => a.decls
  | .field => a.fields

/-- The number of nodes of a kind. -/
def size (a : Arena) (k : Kind) : Nat :=
  (a.store k).nodes.size

/-- The arena with one more node, which gets the next number of its kind. -/
def alloc (a : Arena) : {k : Kind} → k.Node → Span → Arena
  | .expr, node, span => { a with exprs := a.exprs.push node span }
  | .stmt, node, span => { a with stmts := a.stmts.push node span }
  | .decl, node, span => { a with decls := a.decls.push node span }
  | .field, node, span => { a with fields := a.fields.push node span }

/-- All items on a shelf. -/
def buffer (a : Arena) : (s : Shelf) → Array s.Item
  | .idents => a.identLists
  | .exprs => a.exprLists
  | .stmts => a.stmtLists
  | .fields => a.fieldLists
  | .specs => a.specLists

/-- The arena with some items more on a shelf. -/
def append (a : Arena) : {s : Shelf} → List s.Item → Arena
  | .idents, items => { a with identLists := a.identLists ++ items.toArray }
  | .exprs, items => { a with exprLists := a.exprLists ++ items.toArray }
  | .stmts, items => { a with stmtLists := a.stmtLists ++ items.toArray }
  | .fields, items => { a with fieldLists := a.fieldLists ++ items.toArray }
  | .specs, items => { a with specLists := a.specLists ++ items.toArray }

/-- The arena with a symbol noted. -/
def note (a : Arena) (text : String) : Arena :=
  { a with symbols := (a.symbols.intern text).2 }

/-- The text of an identifier; there is none if its symbol is unknown. -/
def name (a : Arena) (n : Ident) : String :=
  a.symbols.resolve n.sym

/-- The node of a number, if it was given out. -/
def node? (a : Arena) {k : Kind} (i : NodeId k) : Option k.Node :=
  (a.store k).nodes[i.raw]?

/-- The span of a node. -/
def span (a : Arena) {k : Kind} (i : NodeId k) : Span :=
  (a.store k).spans.getD i.raw default

/-- The items of a list, if all of it lies on the shelf. -/
def items? (a : Arena) {s : Shelf} (r : ListRef s) : Option (List s.Item) :=
  if r.start + r.len ≤ (a.buffer s).size then
    some ((a.buffer s).extract r.start (r.start + r.len)).toList
  else none

/-- The expression inside any number of parentheses. -/
def unparen (a : Arena) (i : ExprId) : ExprId :=
  match a.node? i with
  | some (.paren _ inner _) => if inner.raw < i.raw then a.unparen inner else inner
  | _ => i
termination_by i.raw

end Arena

/-! ## What a node stores -/

/-- One thing that is stored in a node or on a shelf. -/
inductive Slot where
  | node {k : Kind} (i : NodeId k)
  | ident (n : Ident)
  | literal (l : Lit)
  | list {s : Shelf} (r : ListRef s)

/-- The number that is stored, if one is. -/
def Slot.id? : Slot → Option AnyId
  | .node i => some i.any
  | _ => none

/-- What an expression stores. -/
def ExprNode.slots : ExprNode → List Slot
  | .ident n => [.ident n]
  | .literal l => [.literal l]
  | .funcLit t b => [.node t, .list b.stmts]
  | .composite t _ es _ => t.toList.map .node ++ [.list es]
  | .paren _ x _ | .star _ x | .unary _ _ x | .chanType _ x => [.node x]
  | .selector x n => [.node x, .ident n]
  | .index x y | .binary x _ _ y | .keyValue x _ y | .mapType x y => [.node x, .node y]
  | .indexList x is => [.node x, .list is]
  | .slice x lo hi max _ =>
    [.node x] ++ lo.toList.map .node ++ hi.toList.map .node ++ max.toList.map .node
  | .typeAssert x t => [.node x] ++ t.toList.map .node
  | .call f args _ => [.node f, .list args]
  | .arrayType n t => n.toList.map .node ++ [.node t]
  | .structType fs | .interfaceType fs => [.list fs]
  | .funcType _ params results => [.list params, .list results]
  | .ellipsis _ t => t.toList.map .node
  | .bad _ => []

/-- What a field stores. -/
def FieldNode.slots (f : FieldNode) : List Slot :=
  [.list f.names] ++ [.node f.type] ++ f.tag.toList.map .literal

/-- What a statement stores. -/
def StmtNode.slots : StmtNode → List Slot
  | .empty _ | .bad _ => []
  | .expr x | .step x _ _ | .go _ x | .defer _ x => [.node x]
  | .decl d => [.node d]
  | .assign lhs _ _ rhs => [.list lhs, .list rhs]
  | .send c _ v => [.node c, .node v]
  | .labeled n s => [.ident n, .node s]
  | .ret _ xs => [.list xs]
  | .jump _ n => n.toList.map .ident
  | .block b | .select b => [.list b.stmts]
  | .ifElse init cond b otherwise =>
    init.toList.map .node ++ [.node cond] ++ [.list b.stmts] ++ otherwise.toList.map .node
  | .loop init cond post b =>
    init.toList.map .node ++ cond.toList.map .node ++ post.toList.map .node ++ [.list b.stmts]
  | .range key value _ x b =>
    key.toList.map .node ++ value.toList.map .node ++ [.node x] ++ [.list b.stmts]
  | .switch init tag b => init.toList.map .node ++ tag.toList.map .node ++ [.list b.stmts]
  | .typeSwitch init guard b => init.toList.map .node ++ [.node guard] ++ [.list b.stmts]
  | .caseClause xs b => [.list xs, .list b]
  | .commClause comm b => comm.toList.map .node ++ [.list b]

/-- What the name of an import stores. -/
def ImportIdent.slots : ImportIdent → List Slot
  | .dot _ | .blank _ => []
  | .name n => [.ident n]

/-- What a line of a declaration stores. -/
def SpecNode.slots : SpecNode → List Slot
  | .importing n path => n.elim [] ImportIdent.slots ++ [.literal path]
  | .value names t values => [.list names] ++ t.toList.map .node ++ [.list values]
  | .type n _ t => [.ident n, .node t]

/-- What a declaration stores. -/
def DeclNode.slots : DeclNode → List Slot
  | .group _ _ _ specs _ => [.list specs]
  | .func _ receiver n t b =>
    receiver.toList.map .list ++ [.ident n] ++ [.node t] ++ b.toList.map fun b => .list b.stmts
  | .bad _ => []

/-- What a node stores. -/
def Kind.slots : (k : Kind) → k.Node → List Slot
  | .expr, x => x.slots
  | .stmt, s => s.slots
  | .decl, d => d.slots
  | .field, f => f.slots

/-- What an item on a shelf stores. -/
def Shelf.slots : (s : Shelf) → s.Item → List Slot
  | .idents, n => [.ident n]
  | .exprs, i | .stmts, i | .fields, i => [.node i]
  | .specs, spec => spec.slots

namespace Arena

/-- What the items of a list store; nothing else has items. -/
def under (a : Arena) : Slot → List Slot
  | .list (s := s) r => ((a.items? r).getD []).flatMap s.slots
  | _ => []

/-- Something stored, and what its items store if it is a list. -/
def spread (a : Arena) (x : Slot) : List Slot :=
  x :: a.under x

/-- Something stored, and what its items and the lists of its items store. -/
def deep (a : Arena) (x : Slot) : List Slot :=
  x :: (a.under x).flatMap a.spread

/-- All that a node stores, with its lists and, in a declaration, the lists of its lines. -/
def slots (a : Arena) {k : Kind} (n : k.Node) : List Slot :=
  (k.slots n).flatMap a.deep

/-- The nodes that a node refers to, by itself or in its lists. -/
def refs (a : Arena) {k : Kind} (n : k.Node) : List AnyId :=
  (a.slots n).filterMap Slot.id?

/-- The nodes that the node of a number refers to; none if there is no such node. -/
def refsOf (a : Arena) (i : AnyId) : List AnyId :=
  (a.node? (k := i.kind) ⟨i.raw⟩).elim [] a.refs

end Arena

end GoGloss.Flat
