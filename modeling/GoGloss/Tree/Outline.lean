import GoGloss.Tree

/-!
# Outlines

The nodes of a tree and how they hang together, whatever their kind. `children`
lists what stands directly under a node, in the order of the source, with the
role each child plays; `outline` lists a whole tree in that order, every node
before what is under it.

Going down always makes a node smaller (`sizeOf_lt_of_mem_children`), which is
what lets one argument go through for every kind of node at once.
-/

namespace GoGloss

/-- A node of a tree, of any kind. -/
inductive Node where
  | expr (x : Expr)
  | field (f : Field)
  | stmt (s : Stmt)
  | decl (d : Decl)
  | spec (s : Spec)

/-- What a node is to the node above it. -/
inductive Role where
  | root | type | body | element | expr | index | lo | hi | max | callee | arg | left | right
  | key | value | length | elem | field | param | result | method | receiver | spec | decl
  | lhs | rhs | chan | stmt | call | init | cond | otherwise | post | tag | guard | case | comm
deriving DecidableEq, Repr

namespace Node

/-- The expressions of a list, all in one role. -/
def exprs (role : Role) (xs : List Expr) : List (Role × Node) :=
  xs.map fun x => (role, .expr x)

/-- The expression that may be there. -/
def expr? (role : Role) (x : Option Expr) : List (Role × Node) :=
  exprs role x.toList

/-- The statements of a list, all in one role. -/
def stmts (role : Role) (ss : List Stmt) : List (Role × Node) :=
  ss.map fun s => (role, .stmt s)

/-- The statement that may be there. -/
def stmt? (role : Role) (s : Option Stmt) : List (Role × Node) :=
  stmts role s.toList

/-- The fields of a list, all in one role. -/
def fields (role : Role) (fs : List Field) : List (Role × Node) :=
  fs.map fun f => (role, .field f)

/-- The statements of a body. -/
def body (b : Block) : List (Role × Node) :=
  stmts .body b.stmts

/-- The nodes directly under an expression. -/
def exprChildren : Expr → List (Role × Node)
  | .ident _ | .literal _ | .bad _ => []
  | .funcLit _ type b => (.type, .expr type) :: body b
  | .composite _ type _ elements _ => expr? .type type ++ exprs .element elements
  | .paren _ _ inner _ => [(.expr, .expr inner)]
  | .selector _ x _ => [(.expr, .expr x)]
  | .index _ x i => [(.expr, .expr x), (.index, .expr i)]
  | .indexList _ x is => (.expr, .expr x) :: exprs .index is
  | .slice _ x lo hi max _ =>
    (.expr, .expr x) :: (expr? .lo lo ++ expr? .hi hi ++ expr? .max max)
  | .typeAssert _ x type => (.expr, .expr x) :: expr? .type type
  | .call _ f args _ => (.callee, .expr f) :: exprs .arg args
  | .star _ _ x => [(.expr, .expr x)]
  | .unary _ _ _ x => [(.expr, .expr x)]
  | .binary _ l _ _ r => [(.left, .expr l), (.right, .expr r)]
  | .keyValue _ k _ v => [(.key, .expr k), (.value, .expr v)]
  | .arrayType _ length elem => expr? .length length ++ [(.elem, .expr elem)]
  | .structType _ fs => fields .field fs
  | .funcType _ _ params results => fields .param params ++ fields .result results
  | .interfaceType _ members => fields .method members
  | .mapType _ k v => [(.key, .expr k), (.value, .expr v)]
  | .chanType _ _ elem => [(.elem, .expr elem)]
  | .ellipsis _ _ elem => expr? .elem elem

/-- The nodes directly under a statement. -/
def stmtChildren : Stmt → List (Role × Node)
  | .empty _ | .jump .. | .bad _ => []
  | .expr _ x => [(.expr, .expr x)]
  | .decl _ d => [(.decl, .decl d)]
  | .assign _ lhs _ _ rhs => exprs .lhs lhs ++ exprs .rhs rhs
  | .send _ c _ v => [(.chan, .expr c), (.value, .expr v)]
  | .step _ x _ _ => [(.expr, .expr x)]
  | .labeled _ _ s => [(.stmt, .stmt s)]
  | .go _ _ call | .defer _ _ call => [(.call, .expr call)]
  | .ret _ _ results => exprs .result results
  | .block _ b => body b
  | .ifElse _ init cond b otherwise =>
    stmt? .init init ++ (.cond, .expr cond) :: (body b ++ stmt? .otherwise otherwise)
  | .loop _ init cond post b =>
    stmt? .init init ++ expr? .cond cond ++ stmt? .post post ++ body b
  | .range _ key value _ x b =>
    expr? .key key ++ expr? .value value ++ (.expr, .expr x) :: body b
  | .switch _ init tag b => stmt? .init init ++ expr? .tag tag ++ body b
  | .typeSwitch _ init guard b => stmt? .init init ++ (.guard, .stmt guard) :: body b
  | .select _ b => body b
  | .caseClause _ xs b => exprs .case xs ++ stmts .body b
  | .commClause _ comm b => stmt? .comm comm ++ stmts .body b

/-- The nodes directly under a line of a declaration. -/
def specChildren : Spec → List (Role × Node)
  | .importing .. => []
  | .value _ type values => expr? .type type ++ exprs .value values
  | .type _ _ type => [(.type, .expr type)]

/-- The nodes directly under a declaration. -/
def declChildren : Decl → List (Role × Node)
  | .group _ _ _ _ specs _ => specs.map fun s => (.spec, .spec s)
  | .func _ _ receiver _ type b =>
    receiver.elim [] (fields .receiver) ++ (.type, .expr type) :: b.elim [] body
  | .bad _ => []

/-- The nodes directly under a node, each with its role. -/
def children : Node → List (Role × Node)
  | .expr x => exprChildren x
  | .field f => [(.type, .expr f.type)]
  | .stmt s => stmtChildren s
  | .decl d => declChildren d
  | .spec s => specChildren s

theorem sizeOf_lt_of_mem_exprs {role : Role} {xs : List Expr} {p : Role × Node}
    (h : p ∈ exprs role xs) : sizeOf p.2 < 1 + sizeOf xs := by
  obtain ⟨x, hx, rfl⟩ := List.mem_map.mp h
  have := List.sizeOf_lt_of_mem hx
  simp; omega

theorem sizeOf_lt_of_mem_stmts {role : Role} {ss : List Stmt} {p : Role × Node}
    (h : p ∈ stmts role ss) : sizeOf p.2 < 1 + sizeOf ss := by
  obtain ⟨s, hs, rfl⟩ := List.mem_map.mp h
  have := List.sizeOf_lt_of_mem hs
  simp; omega

theorem sizeOf_lt_of_mem_fields {role : Role} {fs : List Field} {p : Role × Node}
    (h : p ∈ fields role fs) : sizeOf p.2 < 1 + sizeOf fs := by
  obtain ⟨f, hf, rfl⟩ := List.mem_map.mp h
  have := List.sizeOf_lt_of_mem hf
  simp; omega

theorem sizeOf_lt_of_mem_expr? {role : Role} {x : Option Expr} {p : Role × Node}
    (h : p ∈ expr? role x) : sizeOf p.2 < 1 + sizeOf x := by
  cases x with
  | none => simp [expr?, exprs] at h
  | some x =>
      simp only [expr?, exprs, Option.toList_some, List.map_cons, List.map_nil,
        List.mem_singleton] at h
      subst h; simp

theorem sizeOf_lt_of_mem_stmt? {role : Role} {s : Option Stmt} {p : Role × Node}
    (h : p ∈ stmt? role s) : sizeOf p.2 < 1 + sizeOf s := by
  cases s with
  | none => simp [stmt?, stmts] at h
  | some s =>
      simp only [stmt?, stmts, Option.toList_some, List.map_cons, List.map_nil,
        List.mem_singleton] at h
      subst h; simp

theorem sizeOf_lt_of_mem_body {b : Block} {p : Role × Node}
    (h : p ∈ body b) : sizeOf p.2 < sizeOf b := by
  have := sizeOf_lt_of_mem_stmts h
  cases b
  simp at this ⊢; omega

/-- A child is smaller than the node above it. -/
theorem sizeOf_lt_of_mem_children {n : Node} {p : Role × Node} (h : p ∈ n.children) :
    sizeOf p.2 < sizeOf n := by
  cases n with
  | expr x =>
      cases x <;> simp [children, exprChildren] at h ⊢ <;>
        grind [→ sizeOf_lt_of_mem_exprs, → sizeOf_lt_of_mem_expr?, → sizeOf_lt_of_mem_fields,
          → sizeOf_lt_of_mem_body, expr.sizeOf_spec]
  | field f =>
      cases f
      simp [children] at h ⊢
      grind [expr.sizeOf_spec]
  | stmt s =>
      cases s <;> simp [children, stmtChildren] at h ⊢ <;>
        grind [→ sizeOf_lt_of_mem_exprs, → sizeOf_lt_of_mem_expr?, → sizeOf_lt_of_mem_stmts,
          → sizeOf_lt_of_mem_stmt?, → sizeOf_lt_of_mem_body, expr.sizeOf_spec, stmt.sizeOf_spec,
          decl.sizeOf_spec]
  | decl d =>
      cases d with
      | group span word wordPos lparen specs rparen =>
          simp only [children, declChildren, List.mem_map] at h
          obtain ⟨s, hs, rfl⟩ := h
          have := List.sizeOf_lt_of_mem hs
          simp; omega
      | func span funcPos receiver name type b =>
          simp only [children, declChildren, List.mem_append, List.mem_cons] at h
          rcases h with h | rfl | h
          · -- a receiver
            cases receiver with
            | none => simp at h
            | some fs =>
                have := sizeOf_lt_of_mem_fields h
                simp; omega
          · simp; omega
          · -- a statement of the body
            cases b with
            | none => simp at h
            | some b =>
                have := sizeOf_lt_of_mem_body h
                simp; omega
      | bad span => simp [children, declChildren] at h
  | spec s =>
      cases s <;> simp [children, specChildren] at h ⊢ <;>
        grind [→ sizeOf_lt_of_mem_exprs, → sizeOf_lt_of_mem_expr?, expr.sizeOf_spec]

end Node

/-- A line of an outline: a node, its role, and how many nodes are above it. -/
structure Row where
  depth : Nat
  role : Role
  node : Node

/-- The rows of the tree under a node, the node itself first. -/
def Node.outline (depth : Nat) (role : Role) (n : Node) : List Row :=
  ⟨depth, role, n⟩ ::
    n.children.attach.flatMap fun p => p.1.2.outline (depth + 1) p.1.1
termination_by sizeOf n
decreasing_by exact sizeOf_lt_of_mem_children p.2

end GoGloss
