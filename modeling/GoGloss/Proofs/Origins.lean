import GoGloss.Proofs.OnBench
import GoGloss.Proofs.Origins.Expressions
import GoGloss.Proofs.Placement

/-!
# Every expression of a tree has an origin

Declarations and statements make no expressions of their own, so what is on the bench at
the end has its origin in one of the ways of `Origin`. The exception is the type of a
function declaration, which starts with the word `func` but has the function's name
inside.
-/

-- What a production infers has as many steps as the production.
set_option synthInstance.maxSize 1000

namespace GoGloss

/-- An expression is the type in the declaration of a function. -/
def Decl.IsSignature (x : Expr) : Decl → Prop
  | .func _ pos _ _ t _ =>
    x = t ∧ ∃ span params results, t = .funcType span (some pos) params results
  | _ => False

namespace Grammar

variable {src : String} {P : Expr → Prop}

section Productions

variable [hP : Admits src P] {n : Nat} [hi : Inner.Stocks src P (inner n)]

/-! ## Declarations -/

instance : Stocks src P importName? := by
  refine .step fun t => ?_
  split <;> infer_instance

instance : Stocks src P importSpec := by
  refine .step fun name => .step fun path => ?_
  split <;> infer_instance

instance : Stocks src P nameList := by
  unfold nameList
  infer_instance

include hP hi

instance : Stocks src P (initialValues (inner n)) := by
  unfold initialValues
  infer_instance

instance : Stocks src P (constSpec (inner n)) := by
  refine .step fun names => .step fun t => ?_
  split <;> infer_instance

instance : Stocks src P (varSpec (inner n)) := by
  unfold varSpec
  infer_instance

instance (word : DeclWord) : Stocks src P (spec (inner n) word) := by
  cases word with
  | import_ => exact inferInstanceAs (Stocks src P importSpec)
  | const_ => exact inferInstanceAs (Stocks src P (constSpec (inner n)))
  | var_ => exact inferInstanceAs (Stocks src P (varSpec (inner n)))
  | type_ => exact inferInstanceAs (Stocks src P (typeSpec (inner n)))

instance : Stocks src P (groupDecl (inner n)) := by
  refine .step fun start => .step fun t => ?_
  split
  · infer_instance
  · refine .step fun wordPos => .step fun lparen => ?_
    split <;> infer_instance

/-! ## Simple statements -/

instance (start : Nat) (x : Expr) : Stocks src P (afterExpr (inner n) start x) := by
  refine .step fun t => ?_
  split
  · infer_instance
  · split <;> infer_instance

omit hP hi in
instance (xs : List Expr) : Stocks src P (oneExpr xs) := by
  unfold oneExpr
  split <;> infer_instance

instance (start : Nat) (lhs : List Expr) : Stocks src P (afterExprs (inner n) start lhs) := by
  refine .step fun t => ?_
  split <;> infer_instance

instance : Stocks src P (simpleStmt (inner n)) := by
  unfold simpleStmt
  infer_instance

instance : Stocks src P (simpleOrLabeled (inner n)) := by
  refine .step fun start => .step fun lhs => ?_
  refine .step fun t => ?_
  split <;> infer_instance

/-! ## Headers -/

omit hP hi in
instance (part : HeaderPart) (s : Stmt) : Stocks src P (headerExpr part s) := by
  unfold headerExpr
  split <;> infer_instance

instance : Stocks src P (ifHeader (inner n)) := by
  have hrest : ∀ init : Option Stmt, Stocks src P (do
      if ← eats (.mark .semicolon) then
        if ← isAt (.mark .lbrace) then failHere (.missingCondition .if_)
        else return (init, some (← simpleStmt (inner n)))
      else return (none, init)) := fun init => inferInstance
  refine .step fun brace => ?_
  split
  · infer_instance
  · have hparts : Stocks src P (Body.ifParts (simpleStmt (inner n))) := by
      refine .step fun semicolon => ?_
      dsimp only
      split
      · exact .step hrest
      · exact .step hrest
    refine .step fun ⟨init, cond⟩ => ?_
    cases cond <;> infer_instance

instance : Stocks src P (ifStmt (inner n)) := by
  refine .step fun start => .step fun _ => ?_
  refine .step fun header => .step fun body => ?_
  refine .step fun otherwise => ?_
  dsimp only
  split
  · refine .step fun t => ?_
    split <;> infer_instance
  · infer_instance

instance (vars : List Expr) (op : AssignOp) : Stocks src P (rangeClause (inner n) vars op) := by
  unfold rangeClause Body.rangeClause
  split <;> infer_instance

instance : Stocks src P (forStart (inner n)) := by
  refine .step fun start => .step fun lhs => ?_
  refine .step fun t => ?_
  split <;> infer_instance

instance (first : Option Stmt) : Stocks src P (forClauses (inner n) first) := by
  unfold forClauses
  infer_instance

instance : Stocks src P (forHeader (inner n)) := by
  refine .step fun t => ?_
  split
  · infer_instance
  · infer_instance
  · infer_instance
  · refine .step fun start => ?_
    split <;> infer_instance

omit hP hi in
instance (post : Option Stmt) : Stocks src P (checkPost post) := by
  unfold checkPost
  split <;> infer_instance

omit hP hi in
instance (s : Option Stmt) : Stocks src P (loopCondition s) := by
  unfold loopCondition
  split <;> infer_instance

instance : Stocks src P (forStmt (inner n)) := by
  refine .step fun start => .step fun _ => ?_
  refine .step fun header => .step fun body => ?_
  split <;> infer_instance

/-! ## Switches -/

instance : Stocks src P (switchHeader (inner n)) := by
  unfold switchHeader
  infer_instance

instance (types : Bool) : Stocks src P (caseClause (inner n) types) := by
  unfold caseClause
  infer_instance

instance : Stocks src P (commClause (inner n)) := by
  unfold commClause
  infer_instance

omit hP hi in
theorem stocks_clauseBlock {clause : Parser Stmt} (hclause : Stocks src P clause) :
    Stocks src P (clauseBlock clause) := by
  refine .step fun lbrace => .bind (.collect (.step fun t => ?_))
    fun clauses => inferInstance
  split <;> infer_instance

instance : Stocks src P (switchStmt (inner n)) := by
  have hblock : ∀ types, Stocks src P (clauseBlock (caseClause (inner n) types)) :=
    fun _ => stocks_clauseBlock inferInstance
  refine .step fun start => .step fun _ => ?_
  refine .step fun header => .step fun body => ?_
  split <;> infer_instance

instance : Stocks src P (selectStmt (inner n)) := by
  have hblock : Stocks src P (clauseBlock (commClause (inner n))) :=
    stocks_clauseBlock inferInstance
  unfold selectStmt
  infer_instance

/-! ## All statements -/

instance (word : Keyword) : Stocks src P (callAfter (inner n) word) := by
  unfold callAfter
  infer_instance

instance : Stocks src P (returnStmt (inner n)) := by
  refine .step fun start => .step fun pos => ?_
  refine .step fun t => ?_
  dsimp only
  split <;> infer_instance

omit hP hi in
instance (kind : Jump) : Stocks src P (jumpLabel kind) := by
  unfold jumpLabel
  split
  · infer_instance
  · refine .step fun t => ?_
    split <;> infer_instance

instance : Stocks src P (stmtHere (inner n)) := by
  refine .step fun t => ?_
  split
  iterate 3 exact (by unfold emptyStmt; infer_instance)
  iterate 3 exact (by unfold declStmt; infer_instance)
  · unfold goStmt; infer_instance
  · unfold deferStmt; infer_instance
  · infer_instance
  · unfold blockStmt; infer_instance
  · infer_instance
  · infer_instance
  · infer_instance
  · infer_instance
  · split
    · unfold jumpStmt; infer_instance
    · infer_instance

end Productions

/-! ## All levels -/

theorem Inner.stocks_none : Inner.none.Stocks src P where
  binary _ := inferInstanceAs (Grammar.Stocks src P (failHere _))
  unary := inferInstanceAs (Grammar.Stocks src P (failHere _))
  type? := inferInstanceAs (Grammar.Stocks src P (failHere _))
  literalValue _ := inferInstanceAs (Grammar.Stocks src P (failHere _))
  stmt := inferInstanceAs (Grammar.Stocks src P (failHere _))
  ifStmt := inferInstanceAs (Grammar.Stocks src P (failHere _))

instance inner_stocks [hP : Admits src P] (n : Nat) : (inner n).Stocks src P := by
  induction n with
  | zero => exact Inner.stocks_none
  | succ n ih =>
      exact {
        binary := fun least => inferInstanceAs (Stocks src P (binary (inner n) least))
        unary := inferInstanceAs (Stocks src P (unary (inner n)))
        type? := inferInstanceAs (Stocks src P (typeHere? (inner n)))
        literalValue := fun start =>
          inferInstanceAs (Stocks src P (literalValue (inner n) none start))
        stmt := inferInstanceAs (Stocks src P (stmtHere (inner n)))
        ifStmt := inferInstanceAs (Stocks src P (ifStmt (inner n))) }

/-! ## Whole sources -/

section Whole

variable [hP : Admits src P]
include hP

instance : Stocks src P (skipSemicolons : Parser Unit) where
  yields c hc := by
    refine (yields_extend (I := fun _ c₁ => c.Onward src P c₁) hc.onward fun _ c₁ h₁ => ?_)
    simp only [yields_bind, yields_eats]
    exact ⟨fun _ => by simpa using ⟨h₁.1.advance, h₁.2⟩, fun _ => by simpa using h₁⟩

instance : Stocks src P wholeExpr := by
  unfold wholeExpr
  infer_instance

instance : Stocks src P wholeStmt := by
  unfold wholeStmt
  infer_instance

/-- Declaring a function makes one more expression, its type. -/
theorem funcDecl_stocked {n : Nat} {c : Cursor} (hc : c.Stocked src P) :
    Yields (funcDecl (inner n)) c fun d c' =>
      c'.Stocked src fun x => P x ∨ d.IsSignature x := by
  -- the type and the body, after the receiver
  have hrest : ∀ (receiver : Option (List Field)) (c₁ : Cursor), c₁.Stocked src P →
      Yields (do
        let nm ← name
        let sig ← signature (inner n)
        let t ← makeExpr
          (.funcType (← spanFrom c.head.start) (some c.head.span) sig.1 sig.2)
        let body ← if ← isAt (.mark .lbrace) then some <$> block (inner n) else pure none
        makeDecl (.func (← spanFrom c.head.start) c.head.span receiver nm t body)) c₁
      fun d c' => c'.Stocked src fun x => P x ∨ d.IsSignature x := by
    intro receiver c₁ h₁
    simp only [yields_bind]
    refine (Stocks.yields (p := name) c₁ h₁).mono fun nm c₂ h₂ => ?_
    refine (Stocks.yields (p := signature (inner n)) c₂ h₂.1).mono fun sig c₃ h₃ => ?_
    rw [yields_spanFrom, yields_makeExpr]
    generalize ht : Expr.funcType (c₃.spanFrom c.head.start) (some c.head.span) sig.1 sig.2 = t
    -- from here on the type is on the bench too
    have : Admits src fun x => P x ∨ x = t := ⟨fun hx => .inl (hP.sourced hx)⟩
    have h₄ : (c₃.withBench (c₃.bench.addExpr t)).Stocked src fun x => P x ∨ x = t :=
      (h₃.1.mono fun _ => .inl).addExpr (.inr rfl)
    have hdecl : ∀ (body : Option Block) (c₄ : Cursor),
        c₄.Stocked src (fun x => P x ∨ x = t) →
        Yields (do makeDecl (.func (← spanFrom c.head.start) c.head.span receiver nm t body)) c₄
          fun d c' => c'.Stocked src fun x => P x ∨ d.IsSignature x := by
      intro body c₄ h₄
      rw [yields_bind, yields_spanFrom, yields_makeDecl]
      refine Cursor.Stocked.mono (h₄.withBench fun _ hx => .inl hx) fun x hx => ?_
      exact hx.imp_right fun hxt => ⟨hxt, _, _, _, ht.symm⟩
    rw [yields_isAt]
    split
    · rw [yields_bind]
      exact (Stocks.yields (p := some <$> block (inner n)) _ h₄).mono
        fun body c₄ h₄ => hdecl body c₄ h₄.1
    · rw [yields_bind, yields_pure]
      exact hdecl none _ h₄
  simp only [funcDecl, yields_bind, yields_here, yields_expect, yields_isAt]
  intro _
  split
  · rw [yields_bind]
    exact (Stocks.yields (p := some <$> parameters (inner n)) c.advance hc.advance).mono
      fun receiver c₁ h₁ => hrest receiver c₁ h₁.1
  · rw [yields_bind, yields_pure]
    exact hrest none c.advance hc.advance

theorem wholeDecl_stocked {c : Cursor} (hc : c.Stocked src P) :
    Yields wholeDecl c fun d c' => c'.Stocked src fun x => P x ∨ d.IsSignature x := by
  have hdecl : Yields (decl (inner maxDepth)) c fun d c' =>
      c'.Stocked src fun x => P x ∨ d.IsSignature x := by
    simp only [decl, yields_bind, yields_isAt]
    split
    · exact funcDecl_stocked hc
    · exact (Stocks.yields (p := groupDecl (inner maxDepth)) c hc).mono
        fun d c' h' => h'.1.mono fun _ => .inl
  simp only [wholeDecl, yields_bind]
  refine hdecl.mono fun d c₁ h₁ => ?_
  have : Admits src fun x => P x ∨ d.IsSignature x := ⟨fun hx => .inl (hP.sourced hx)⟩
  have hend : Stocks src (fun x => P x ∨ d.IsSignature x) (do
      expectEnd
      skipSemicolons
      discard <| expect .eof
      return d) := inferInstance
  simpa using (hend.yields c₁ h₁).mono fun _ _ h' => h'.1

end Whole

end Grammar

open Grammar

/-! ## Trees of accepted sources -/

/-- The tree that a source is read into, in one of the three ways to read it. -/
inductive ReadFrom (src : String) : Node → Prop where
  | expr {f : Fragment Expr} (h : parseExpr src = .ok f) : ReadFrom src (.expr f.root)
  | decl {f : Fragment Decl} (h : parseDecl src = .ok f) : ReadFrom src (.decl f.root)
  | stmt {f : Fragment Stmt} (h : parseStmt src = .ok f) : ReadFrom src (.stmt f.root)

theorem stocked_start {src : String} {P : Expr → Prop} :
    (Cursor.start (tokenize src) src.utf8ByteSize).Stocked src P :=
  ⟨inferInstance, by simp [Cursor.start], by simp [Cursor.start]⟩

/--
What holds of the expressions with an origin holds all over the tree of an accepted source,
but perhaps not of the type in the declaration of a function.
-/
theorem ReadFrom.admitted {src : String} {P : Expr → Prop} [Admits src P] {n : Node}
    (h : ReadFrom src n) {x : Expr} (hx : .expr x ∈ n.nodes) :
    P x ∨ ∃ d, n = .decl d ∧ d.IsSignature x := by
  cases h with
  | expr hf =>
      obtain ⟨c, hbench, hc⟩ :=
        (Stocks.yields (p := wholeExpr) (P := P) _ stocked_start).read_bench hf
      have hheld := Flat.held_of_read (k := .expr) Flat.twin_wholeExpr hf _ hx
      exact .inl (hc.1.exprs x (hbench ▸ hheld))
  | decl hf =>
      obtain ⟨c, hbench, hc⟩ := (wholeDecl_stocked (P := P) stocked_start).read_bench hf
      have hheld := Flat.held_of_read (k := .decl) Flat.twin_wholeDecl hf _ hx
      exact (hc.exprs x (hbench ▸ hheld)).imp_right fun hsig => ⟨_, rfl, hsig⟩
  | stmt hf =>
      obtain ⟨c, hbench, hc⟩ :=
        (Stocks.yields (p := wholeStmt) (P := P) _ stocked_start).read_bench hf
      have hheld := Flat.held_of_read (k := .stmt) Flat.twin_wholeStmt hf _ hx
      exact .inl (hc.1.exprs x (hbench ▸ hheld))

end GoGloss
