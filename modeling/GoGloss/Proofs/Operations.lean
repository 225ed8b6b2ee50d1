import GoGloss.Proofs.Legible
import GoGloss.Proofs.Spelling

/-!
# Operations

The expressions that are made of names by means of operators, parentheses,
selectors, indices and calls. `Expr.tokens` writes one of them down, token by token.
Nothing is added on the way: where the grouping is not what the operators alone
make of it, there are parentheses in the tree already, which is what the condition
`Expr.Fits` in `Expr.Operation` is for.
-/

namespace GoGloss

namespace Expr

/-- An operation, in which every operator takes only what it may take. -/
inductive Operation : Expr → Prop
  | ident {name : Name} : isIdentifier name.text = true → Operation (.ident name)
  | paren {span lparen rparen : Span} {x : Expr} :
      Operation x → Operation (.paren span lparen x rparen)
  | selector {span : Span} {x : Expr} {member : Name} :
      Operation x → isIdentifier member.text = true → (Expr.selector span x member).Fits →
      Operation (.selector span x member)
  | index {span : Span} {x i : Expr} :
      Operation x → Operation i → (Expr.index span x i).Fits → Operation (.index span x i)
  /-- A call without dots behind its last argument. -/
  | call {span : Span} {f : Expr} {args : List Expr} :
      Operation f → (∀ a ∈ args, Operation a) → (Expr.call span f args none).Fits →
      Operation (.call span f args none)
  | star {span pos : Span} {x : Expr} :
      Operation x → (Expr.star span pos x).Fits → Operation (.star span pos x)
  | unary {span opPos : Span} {op : UnaryOp} {x : Expr} :
      Operation x → (Expr.unary span op opPos x).Fits → Operation (.unary span op opPos x)
  | binary {span opPos : Span} {op : BinaryOp} {l r : Expr} :
      Operation l → Operation r → (Expr.binary span l op opPos r).Fits →
      Operation (.binary span l op opPos r)

mutual

/-- The tokens of an operation in the order of the source. -/
def tokens : Expr → List Token
  | .ident name => [.name name.text]
  | .paren _ _ x _ => .mark .lparen :: (x.tokens ++ [.mark .rparen])
  | .selector _ x member => x.tokens ++ [.mark .dot, .name member.text]
  | .index _ x i => x.tokens ++ .mark .lbrack :: (i.tokens ++ [.mark .rbrack])
  | .call _ f args _ => f.tokens ++ .mark .lparen :: (argTokens args ++ [.mark .rparen])
  | .star _ _ x => .mark .star :: x.tokens
  | .unary _ op _ x => .mark op.mark :: x.tokens
  | .binary _ l op _ r => l.tokens ++ .mark op.mark :: r.tokens
  | _ => []

/-- The tokens of arguments, with commas between them. -/
def argTokens : List Expr → List Token
  | [] => []
  | [x] => x.tokens
  | x :: xs => x.tokens ++ .mark .comma :: argTokens xs

end

/-- The source of an operation, with a single blank between any two tokens. -/
def source (x : Expr) : String :=
  spaced x.tokens

/-- How many nodes the tree of an expression has. -/
def size (x : Expr) : Nat :=
  (Node.expr x).nodes.length

/-- How many nodes the trees of several expressions have. -/
def sizeAll : List Expr → Nat
  | [] => 0
  | x :: xs => x.size + sizeAll xs

/-! ## Sizes -/

theorem size_eq (x : Expr) :
    x.size = 1 + ((Node.exprChildren x).flatMap fun p => p.2.nodes).length := by
  rw [size, Node.nodes_eq, List.length_cons, Nat.add_comm]
  rfl

theorem length_flatMap_exprs (role : Role) (xs : List Expr) :
    ((Node.exprs role xs).flatMap fun p => p.2.nodes).length = sizeAll xs := by
  induction xs with
  | nil => rfl
  | cons x xs ih =>
      rw [Node.exprs, List.map_cons, List.flatMap_cons, List.length_append]
      exact congrArg (x.size + ·) ih

section Sizes

variable (span pos pos' : Span) (x y : Expr)

@[simp]
theorem size_ident (name : Name) : (ident name).size = 1 := by
  rw [size_eq]
  rfl

@[simp]
theorem size_paren : (paren span pos x pos').size = x.size + 1 := by
  rw [size_eq]
  simp [Node.exprChildren, size, Nat.add_comm]

@[simp]
theorem size_selector (member : Name) : (selector span x member).size = x.size + 1 := by
  rw [size_eq]
  simp [Node.exprChildren, size, Nat.add_comm]

@[simp]
theorem size_index : (index span x y).size = x.size + y.size + 1 := by
  rw [size_eq]
  simp [Node.exprChildren, size, Nat.add_comm]

@[simp]
theorem size_call (args : List Expr) (dots : Option Span) :
    (call span x args dots).size = x.size + sizeAll args + 1 := by
  rw [size_eq, Node.exprChildren, List.flatMap_cons, List.length_append, length_flatMap_exprs,
    Nat.add_comm]
  rfl

@[simp]
theorem size_star : (star span pos x).size = x.size + 1 := by
  rw [size_eq]
  simp [Node.exprChildren, size, Nat.add_comm]

@[simp]
theorem size_unary (op : UnaryOp) : (unary span op pos x).size = x.size + 1 := by
  rw [size_eq]
  simp [Node.exprChildren, size, Nat.add_comm]

@[simp]
theorem size_binary (op : BinaryOp) : (binary span x op pos y).size = x.size + y.size + 1 := by
  rw [size_eq]
  simp [Node.exprChildren, size, Nat.add_comm]

end Sizes

/-! ## The tokens -/

theorem mem_argTokens {t : Token} {args : List Expr} (h : t ∈ argTokens args) :
    t = .mark .comma ∨ ∃ a ∈ args, t ∈ a.tokens := by
  induction args with
  | nil => simp [argTokens] at h
  | cons a args ih =>
      cases args with
      | nil => exact .inr ⟨a, List.mem_cons_self, by simpa [argTokens] using h⟩
      | cons b args =>
          simp only [argTokens, List.mem_append, List.mem_cons] at h ih ⊢
          grind

/-- The tokens of an operation can be told from their texts. -/
theorem Operation.isSpelled {x : Expr} (h : x.Operation) : ∀ t ∈ x.tokens, t.isSpelled = true := by
  induction h with
  | ident hname => simpa [tokens, Token.isSpelled] using hname
  | paren _ ih => simpa [tokens, Token.isSpelled, or_imp, forall_and] using ih
  | selector _ hmember _ ih =>
      simpa [tokens, Token.isSpelled, or_imp, forall_and] using ⟨ih, hmember⟩
  | index _ _ _ ihx ihi => simpa [tokens, Token.isSpelled, or_imp, forall_and] using ⟨ihx, ihi⟩
  | @call _ f args _ _ _ ihf ihargs =>
      have hargs : ∀ t ∈ argTokens args, t.isSpelled = true := by
        intro t ht
        obtain rfl | ⟨a, ha, ht⟩ := mem_argTokens ht
        · rfl
        · exact ihargs a ha t ht
      simpa [tokens, Token.isSpelled, or_imp, forall_and] using ⟨ihf, hargs⟩
  | star _ _ ih | unary _ _ ih => simpa [tokens, Token.isSpelled] using ih
  | binary _ _ _ ihl ihr => simpa [tokens, Token.isSpelled, or_imp, forall_and] using ⟨ihl, ihr⟩

/-! ## Operations are legible -/

theorem argTokens_eq {args : List Expr} (h : ∀ a ∈ args, a.tokens = a.spelling) :
    argTokens args = spellings args := by
  induction args with
  | nil => rfl
  | cons a args ih =>
      rw [List.forall_mem_cons] at h
      cases args with
      | nil => simp [argTokens, spellings, moreSpellings, h.1]
      | cons b args => rw [argTokens, spellings_cons, moreSpellings_cons, h.1, ih h.2]; simp

/-- The tokens of an operation are those of a legible expression. -/
theorem Operation.tokens_eq {x : Expr} (h : x.Operation) : x.tokens = x.spelling := by
  induction h with
  | ident => rfl
  | index _ _ _ ihx ihi => rw [tokens, spelling, ihx, ihi]
  | call _ _ _ ihf ihargs => rw [tokens, spelling, ihf, argTokens_eq ihargs]
  | paren _ ih | selector _ _ _ ih | star _ _ ih | unary _ _ ih => rw [tokens, spelling, ih]
  | binary _ _ _ ihl ihr => rw [tokens, spelling, ihl, ihr]

theorem Operation.legible {x : Expr} (h : x.Operation) : x.Legible := by
  induction h with
  | ident => exact .ident
  | paren _ ih => exact .paren ih
  | selector _ _ _ ih => exact .selector ih
  | index _ _ _ ihx ihi => exact .index ihx ihi
  | call _ _ _ ihf ihargs => exact .call ihf ihargs
  | star _ _ ih => exact .star ih
  | unary _ _ ih => exact .unary ih
  | binary _ _ _ ihl ihr => exact .binary ihl ihr

/-- A statement may end after an operation. -/
theorem Operation.endsStatement {x : Expr} (h : x.Operation) :
    (x.tokens.getLast?.map Token.endsStatement).getD false = true := by
  obtain ⟨ts, t, hspelling, hends⟩ := h.legible.exists_last
  simp [h.tokens_eq, hspelling, hends]

theorem Operation.binds {x : Expr} (h : x.Operation) : (Node.expr x).Binds := by
  induction h with
  | ident => exact Node.binds_expr.mpr ⟨trivial, by simp [Node.exprChildren]⟩
  | paren _ ih => exact Node.binds_expr.mpr ⟨trivial, by simpa [Node.exprChildren] using ih⟩
  | selector _ _ hfits ih | star _ hfits ih | unary _ hfits ih =>
      exact Node.binds_expr.mpr ⟨hfits, by simpa [Node.exprChildren] using ih⟩
  | index _ _ hfits ihx ihi | binary _ _ hfits ihx ihi =>
      exact Node.binds_expr.mpr ⟨hfits, by simpa [Node.exprChildren] using ⟨ihx, ihi⟩⟩
  | @call _ f args _ _ hfits ihf ihargs =>
      refine Node.binds_expr.mpr ⟨hfits, ?_⟩
      have hall : Node.All (fun _ n => n.Binds) (Node.exprChildren (.call default f args none)) := by
        rw [Node.exprChildren, Node.all_cons, Node.all_exprs]
        exact ⟨ihf, ihargs⟩
      exact hall

theorem needAll_le {xs : List Expr} (h : ∀ x ∈ xs, x.need < 2 * x.size) :
    needAll xs ≤ 2 * sizeAll xs := by
  induction xs with
  | nil => exact Nat.zero_le _
  | cons x xs ih =>
      rw [List.forall_mem_cons] at h
      have := ih h.2
      rw [needAll, sizeAll]
      omega

/-- Each node of an operation may need two levels, and keep one of them. -/
theorem Operation.need_lt {x : Expr} (h : x.Operation) :
    x.kept < x.size ∧ x.need < 2 * x.size := by
  induction h with
  | ident => simp [kept, need]
  | paren _ ih | star _ _ ih | unary _ _ ih =>
      simp only [kept, need, size_paren, size_star, size_unary]
      omega
  | selector _ _ _ ih =>
      simp only [kept, need, size_selector]
      omega
  | index _ _ _ ihx ihi =>
      simp only [kept, need, size_index]
      omega
  | @call _ _ args _ _ _ ihf ihargs =>
      have := needAll_le fun a ha => (ihargs a ha).2
      simp only [kept, need, size_call]
      omega
  | binary _ _ _ ihl ihr =>
      simp only [kept, need, size_binary]
      omega

end Expr

end GoGloss
