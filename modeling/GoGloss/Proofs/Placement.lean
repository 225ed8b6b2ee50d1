import GoGloss.Proofs.Placement.Types

/-!
# Fragments lie where they were read
-/

-- What a production infers has as many steps as the production.
set_option synthInstance.maxSize 1000

namespace GoGloss

open Node

namespace Grammar

variable {src : String} {b : Nat} {e : Bool} {c : Cursor} [c.Ready src] [c.From src b]
  [Start e b c]

section Productions

variable {inner : Inner} [inner.Nests src]

/-! ## Blocks -/

instance {s t : Span} {stmts : List Stmt} [hs : Lies src b c s] [hstmts : Lies src b c stmts]
    [ht : Lies src b c t] : Lies src b c (Block.mk s stmts t) :=
  ⟨trivial, fun hsmall => ⟨by simpa [Block.places] using ⟨hs.lies hsmall, ht.lies hsmall⟩,
    hstmts.lies hsmall⟩⟩

instance : Nests false src b c (stmt inner) := by
  unfold stmt
  infer_instance

instance : Nests false src b c (stmtList inner) := by
  unfold stmtList
  infer_instance

instance : Nests false src b c (block inner) := by
  unfold block
  infer_instance

instance : Lands src (block inner) where
  yields c hc := by
    simp only [block, yields_bind, yields_expect, yields_pure]
    intro _ stmts c₁ hrun hclose
    have hstmts : Nests false src c.head.start c.advance (stmtList inner) := inferInstance
    have h₁ := (hstmts.settles.yields stmts c₁ hrun).onto
    have hle := Nat.le_trans h₁.start_le h₁.ready.head_bounds.2.2.1
    exact ⟨Nat.le_trans hc.onto_advance.start_le hle, h₁.ready.landed_advance hclose rfl⟩

/-! ## Expressions -/

instance : Nests e src b c (funcTypeOrLit inner) := by
  unfold funcTypeOrLit
  infer_instance

instance {x : Expr} {start : Nat} [c.From src start] [Lies src start c x] :
    Nests e src start c (selectorOrAssertion inner x start) := by
  refine .step fun _ => .look fun t => ?_
  split <;> infer_instance

instance : Nests false src b c (sliceBound inner) := by
  refine .look fun t => ?_
  split <;> infer_instance

instance : Nests false src b c (sliceBounds inner) := by
  unfold sliceBounds
  infer_instance

/-- The indices and the bounds between brackets. -/
def Subscript.parts : Subscript Expr → List Expr × Option Expr × Option Expr × Option Expr
  | .indices first others => (first :: others, none, none, none)
  | .slice lo hi max _ => ([], lo, hi, max)

instance : Placed (Subscript Expr) := .via Subscript.parts

instance {first : Expr} {others : List Expr} [Lies src b c first] [Lies src b c others] :
    Lies src b c (Subscript.indices first others) :=
  lies_via.mpr (inferInstance : Lies src b c (first :: others, none, none, none))
instance {lo hi max : Option Expr} {full : Bool} [Lies src b c lo] [Lies src b c hi]
    [Lies src b c max] : Lies src b c (Subscript.slice lo hi max full) :=
  lies_via.mpr (inferInstance : Lies src b c ([], lo, hi, max))

instance : Nests false src b c (subscript inner) := by
  have hrest : ∀ {c : Cursor} {first : Option Expr} [c.Ready src] [c.From src b]
      [Lies src b c first], Nests false src b c
        (Body.subscriptFrom (moreUntil .rbrack (expr inner)) (sliceBounds inner) first) := by
    intro c first _ _ h
    refine .look fun colon => ?_
    split
    · have := h.of_some rfl
      infer_instance
    · infer_instance
  unfold subscript
  infer_instance

instance {x : Expr} {start : Nat} [c.From src start] [Lies src start c x] :
    Nests e src start c (subscripted inner x start) := by
  refine .step fun _ => .step fun sub => .step fun rbrack => .spanFrom ?_
  have hsub : Lies src start rbrack.after sub.val.parts := lies_via.mp inferInstance
  split <;> rename_i hval <;> rw [hval] at hsub
  · have := hsub.fst.of_mem (.head _)
    infer_instance
  · have : Lies src start rbrack.after (_ :: _) := hsub.fst
    infer_instance
  · infer_instance
  · infer_instance
  · rename_i lo hi max _ _ _
    have : Lies src start rbrack.after lo := hsub.snd.fst
    have : Lies src start rbrack.after hi := hsub.snd.snd.fst
    have : Lies src start rbrack.after max := hsub.snd.snd.snd
    infer_instance

instance : Nests false src b c (argRound inner) := by
  refine .look fun t => ?_
  split <;> infer_instance

section Args

variable {args : List (Expr × Option Span)} [h : Lies src b c args]

instance : Lies src b c (args.map (·.1)) :=
  ⟨List.forall_mem_map.mpr fun p hp => (h.inside p hp).1,
    fun hsmall => List.forall_mem_map.mpr fun p hp => (h.lies hsmall p hp).1⟩

instance : Lies src b c (args.getLast?.bind (·.2)) := by
  cases hlast : args.getLast? with
  | none => exact (inferInstance : Lies src b c (none : Option Span))
  | some p =>
    have := h.of_mem (List.mem_of_getLast? hlast)
    exact (inferInstance : Lies src b c p.2)

end Args

instance {f : Expr} {start : Nat} [c.From src start] [Lies src start c f] :
    Nests e src start c (call inner f start) := by
  unfold call
  infer_instance

instance : Nests false src b c (elementValue inner) := by
  unfold elementValue
  infer_instance

instance : Nests false src b c (element inner) := by
  unfold element
  infer_instance

instance {t : Option Expr} {start : Nat} [c.From src start] [Lies src start c t] :
    Nests e src start c (literalValue inner t start) := by
  unfold literalValue
  infer_instance

instance {start : Nat} {x : Expr} [c.From src start] [Lies src start c x] :
    Nests e src start c (postfixRound inner start x) := by
  refine .look fun t => ?_
  split <;> infer_instance

omit [inner.Nests src] in
instance {start : Nat} {x : Expr} : Halts (postfixRound inner start x) where
  yields c := by
    simp only [postfixRound, yields_bind, yields_peek]
    split <;> simp

instance : Nests e src b c (operand inner) := by
  refine .peek ?_
  split
  · infer_instance
  · infer_instance
  · infer_instance
  · rename_i kind text ht
    have hc : c.Ready src := inferInstance
    have : Fills e src b c.advance (.literal ⟨kind, c.head.span, text⟩ : Expr) :=
      fills_token rfl rfl (hc.landed_advance ht rfl)
    exact .take inferInstance
  · refine .step fun t => ?_
    split
    · rename_i ht
      have := t.lies.of_some ht
      have := (t.fills (e := e)).of_some ht
      infer_instance
    · infer_instance

instance : Nests e src b c (primary inner) := by
  unfold primary
  infer_instance

instance : Nests e src b c (receiveExpr inner) := by
  unfold receiveExpr
  infer_instance

instance : Nests e src b c (starExpr inner) := by
  unfold starExpr
  infer_instance

instance {op : UnaryOp} : Nests e src b c (unaryExpr inner op) := by
  unfold unaryExpr
  infer_instance

instance : Nests e src b c (unary inner) := by
  refine .look fun t => ?_
  split
  · infer_instance
  · infer_instance
  · split <;> infer_instance

instance {least start : Nat} {left : Expr} [c.From src start] [Lies src start c left] :
    Nests e src start c (binaryRound inner least start left) := by
  refine .look fun t => ?_
  split <;> infer_instance

omit [inner.Nests src] in
instance {least start : Nat} {left : Expr} : Halts (binaryRound inner least start left) where
  yields c := by
    simp only [binaryRound, yields_bind, yields_peek]
    split <;> simp

instance {least : Nat} : Nests e src b c (binary inner least) := by
  unfold binary
  infer_instance

/-! ## Declarations -/

instance : Nests false src b c importName? := by
  refine .look fun t => ?_
  split <;> infer_instance

instance : Nests false src b c importSpec := by
  refine .step fun n => .step fun path => ?_
  split
  · rename_i hpath
    have := path.lies.of_some hpath
    infer_instance
  · infer_instance

instance : Nests false src b c (initialValues inner) := by
  unfold initialValues
  infer_instance

instance : Nests false src b c (constSpec inner) := by
  refine .step fun names => .look fun t => ?_
  split <;> infer_instance

instance : Nests false src b c (varSpec inner) := by
  unfold varSpec
  infer_instance

instance {word : DeclWord} : Nests false src b c (spec inner word) := by
  cases word <;> unfold spec <;> infer_instance

instance : Nests false src b c (groupDecl inner) := by
  refine .here (.look fun t => ?_)
  split <;> infer_instance

instance : Nests false src b c (funcDecl inner) := by
  refine .here (.step fun func => .look fun method => ?_)
  dsimp only
  split <;> infer_instance

instance : Nests false src b c (decl inner) := by
  unfold decl
  infer_instance

/-! ## Simple statements -/

instance {start : Nat} {lhs : List Expr} {op : AssignOp} [c.From src start] [Lies src start c lhs] :
    Nests false src start c (assignment inner start lhs op) := by
  unfold assignment
  infer_instance

instance {start : Nat} {x : Expr} [c.From src start] [hx : Lies src start c x] :
    Nests false src start c (afterExpr inner start x) := by
  have := hx.took
  refine .look fun t => ?_
  split
  · infer_instance
  · split <;> infer_instance

instance {lhs : List Expr} [h : Lies src b c lhs] : Nests false src b c (oneExpr lhs) := by
  unfold oneExpr
  split
  · have := h.of_mem (.head _)
    infer_instance
  · refine ⟨settles_failAt.mpr ?_⟩
    cases lhs with
    | nil => exact ⟨Nat.le_refl _, Nat.zero_le _⟩
    | cons x xs => exact h.inside x (.head _)

instance {start : Nat} {lhs : List Expr} [c.From src start] [Lies src start c lhs] :
    Nests false src start c (afterExprs inner start lhs) := by
  refine .look fun t => ?_
  split <;> infer_instance

instance : Nests false src b c (simpleStmt inner) := by
  unfold simpleStmt
  infer_instance

instance : Nests false src b c (simpleOrLabeled inner) := by
  refine .here (.step fun lhs => .look fun t => ?_)
  split
  · rename_i label hlhs
    have hlabel := lhs.lies
    rw [hlhs] at hlabel
    replace hlabel := hlabel.of_mem (.head _)
    have : Lies src c.head.start lhs.after label :=
      lies_via.mpr ⟨hlabel.inside, fun hsmall => (hlabel.lies hsmall).extent _ (.head _)⟩
    infer_instance
  · infer_instance

/-! ## Headers -/

/-- The expression a statement consists of lies where the statement does. -/
theorem liesIn_of_expr {s t : Span} {x : Expr} (h : (Node.stmt (.expr s x)).LiesIn src t) :
    (Node.expr x).LiesIn src t := by
  have hspan := h.extent s (mem_extent rfl rfl)
  obtain ⟨hcovers, hbelow⟩ := spansNest_iff.mp h.nest
  refine ⟨hbelow (.expr, .expr x) (.head _), fun p hp => ?_⟩
  obtain rfl : p = x.span := by simpa [extent, span?] using hp
  have hx := (hcovers s rfl).below (.expr x) (by simp [below, children, stmtChildren]) rfl _ rfl
  exact hx.widen hspan.start_le hspan.le_stop

instance {part : HeaderPart} {s : Stmt} [h : Lies src b c s] :
    Nests false src b c (headerExpr part s) := by
  unfold headerExpr
  split
  · rename_i span x
    have : Lies src b c x := ⟨h.inside.2 x rfl, fun hsmall => liesIn_of_expr (h.lies hsmall)⟩
    infer_instance
  · exact ⟨settles_failAt.mpr h.inside.1⟩
  · exact ⟨settles_failAt.mpr h.inside.1⟩

instance : Nests false src b c (ifHeader inner) := by
  refine .look fun opened => ?_
  split
  · infer_instance
  · refine .step fun header => ?_
    dsimp only
    split
    · rename_i cond hcond
      have := header.lies.snd.of_some hcond
      infer_instance
    · infer_instance

instance : Nests false src b c (ifStmt inner) := by
  refine .here (.step fun _ => .step fun header => .step fun body => .eats ?_ ?_)
  · simp only [if_true]
    refine .look fun t => ?_
    split
    · infer_instance
    · refine .mark (.bind (d := body.after.advance.head.start) inferInstance fun other => ?_)
      refine .spanFrom (.bind (d := body.after.advance.head.start) inferInstance fun other => ?_)
      have : Lies src c.head.start other.after other.val :=
        other.lies.mono (fun _ => Cursor.From.le src) (Nat.le_refl _)
      infer_instance
    · infer_instance
  · simp only [Bool.false_eq_true, if_false]
    infer_instance

/-- The expressions and the statements in the header of a `for`. -/
def ForHeader.parts : ForHeader Expr Stmt →
    (Option Expr × Option Expr × Option Expr) × Option Stmt × Option Stmt × Option Stmt
  | .range key value _ operand => ((key, value, some operand), none, none, none)
  | .clauses init cond post => ((none, none, none), init, cond, post)

instance : Placed (ForHeader Expr Stmt) := .via ForHeader.parts

instance {key value : Option Expr} {op : Option AssignOp} {x : Expr} [Lies src b c key]
    [Lies src b c value] [Lies src b c x] :
    Lies src b c (.range key value op x : ForHeader Expr Stmt) :=
  lies_via.mpr (inferInstance : Lies src b c ((key, value, some x), none, none, none))
instance {init cond post : Option Stmt} [Lies src b c init] [Lies src b c cond]
    [Lies src b c post] : Lies src b c (.clauses init cond post : ForHeader Expr Stmt) :=
  lies_via.mpr (inferInstance : Lies src b c ((none, none, none), init, cond, post))

instance {xs : List Expr} {i : Nat} [h : Lies src b c xs] : Lies src b c xs[i]? :=
  ⟨fun x hx => h.inside x (List.mem_of_getElem? hx),
    fun hsmall x hx => h.lies hsmall x (List.mem_of_getElem? hx)⟩

instance {vars : List Expr} {op : AssignOp} [h : Lies src b c vars] :
    Nests false src b c (rangeClause inner vars op) := by
  unfold rangeClause Body.rangeClause
  split
  · exact ⟨settles_failAt.mpr (h.inside _ (by simp))⟩
  · infer_instance

instance : Nests false src b c (forStart inner) := by
  refine .here (.step fun lhs => .look fun t => ?_)
  split <;> infer_instance

instance {first : Option Stmt} [Lies src b c first] :
    Nests false src b c (forClauses inner first) := by
  unfold forClauses
  infer_instance

instance : Nests false src b c (forHeader inner) := by
  refine .look fun t => ?_
  split
  · infer_instance
  · infer_instance
  · infer_instance
  · refine .step fun first => ?_
    have hfirst := lies_via.mp first.lies
    split <;> rename_i hval <;> rw [hval] at hfirst
    · have := hfirst.fst.of_some rfl
      infer_instance
    · have := hfirst.snd.of_some rfl
      infer_instance

instance {post : Option Stmt} [h : Lies src b c post] : Nests false src b c (checkPost post) := by
  unfold checkPost
  split
  · exact ⟨settles_failAt.mpr (h.inside _ rfl).1⟩
  · infer_instance

instance {cond : Option Stmt} [h : Lies src b c cond] :
    Nests false src b c (loopCondition cond) := by
  unfold loopCondition
  split
  · have := h.of_some rfl
    infer_instance
  · infer_instance

instance : Nests false src b c (forStmt inner) := by
  refine .here (.step fun _ => .step fun header => .step fun body => ?_)
  have hheader := lies_via.mp header.lies
  split <;> rename_i hval <;> rw [hval] at hheader
  · rename_i key value op x
    have : Lies src c.head.start header.after key := hheader.fst.fst
    have : Lies src c.head.start header.after value := hheader.fst.snd.fst
    have : Lies src c.head.start header.after x := hheader.fst.snd.snd.of_some rfl
    infer_instance
  · rename_i init cond post
    have : Lies src c.head.start header.after init := hheader.snd.fst
    have : Lies src c.head.start header.after cond := hheader.snd.snd.fst
    have : Lies src c.head.start header.after post := hheader.snd.snd.snd
    infer_instance

/-! ## Switches -/

instance : Nests false src b c (switchHeader inner) := by
  unfold switchHeader
  infer_instance

instance {types : Bool} : Nests false src b c (caseClause inner types) := by
  unfold caseClause
  infer_instance

instance : Nests false src b c (commClause inner) := by
  unfold commClause
  infer_instance

instance {clause : Parser Stmt} [h : Anywhere src b clause] :
    Nests false src b c (clauseBlock clause) := by
  have hround : Anywhere src b (Body.clauseRound clause) := by
    refine ⟨.look fun t => ?_⟩
    have := @h.nests
    split <;> infer_instance
  unfold clauseBlock
  infer_instance

instance : Nests false src b c (switchStmt inner) := by
  refine .here (.step fun _ => .step fun header => .step fun body => ?_)
  split
  · infer_instance
  · rename_i tag htag
    have := header.lies.snd.of_some htag
    infer_instance

instance : Nests false src b c (selectStmt inner) := by
  unfold selectStmt
  infer_instance

/-! ## All statements -/

instance {word : Keyword} : Nests false src b c (callAfter inner word) := by
  refine .step fun x => ?_
  split
  · infer_instance
  · exact ⟨settles_failAt.mpr x.lies.inside⟩

instance : Nests false src b c (goStmt inner) := by
  unfold goStmt
  infer_instance

instance : Nests false src b c (deferStmt inner) := by
  unfold deferStmt
  infer_instance

instance : Nests false src b c (returnStmt inner) := by
  refine .here (.step fun _ => .look fun t => ?_)
  dsimp only
  split <;> infer_instance

instance {kind : Jump} : Nests false src b c (jumpLabel kind) := by
  unfold jumpLabel
  split
  · infer_instance
  · refine .look fun t => ?_
    split <;> infer_instance

/-- The empty statement is a point in front of the token ahead. -/
instance : Nests false src b c emptyStmt := by
  have hc : c.Ready src := inferInstance
  have hbounds := hc.head_bounds
  refine .mark ?_
  have : Lies src b c (Stmt.empty (Span.point c.head.start)) := by
    refine ⟨⟨Span.inside_of (Nat.le_refl _) hc.start_le_size, nofun⟩, fun hsmall => ?_⟩
    have hpoint : (Span.point c.head.start).IsStretch src := by
      have heq : Span.point c.head.start = ⟨c.head.start, c.head.start⟩ := by
        unfold Small at hsmall
        simp only [Span.point, Span.of, Span.mk.injEq]
        omega
      exact heq ▸ ⟨Nat.le_refl _, hc.start_le_size, hbounds.1, hbounds.1⟩
    have hnest := liesIn_span (n := .stmt (.empty (Span.point c.head.start))) rfl hpoint
      (by simp [Node.places, Stmt.places]) (by simp [children, stmtChildren])
    exact ⟨hnest.nest, by simp [extent]⟩
  infer_instance

instance : Nests false src b c (stmtHere inner) := by
  refine .look fun t => ?_
  split
  iterate 14 infer_instance
  · split <;> infer_instance

/-! ## All levels -/

instance : inner.over.Nests src := by
  constructor <;> intros <;> unfold Inner.over <;> infer_instance

end Productions

instance : Halts (failHere .tooDeep : Parser (Option Expr)) := ⟨fun _ => yields_failHere⟩

instance : Inner.none.Nests src := by
  constructor <;> intros <;> unfold Inner.none <;> infer_instance

instance inner_nests (n : Nat) : (inner n).Nests src := by
  induction n with
  | zero => unfold inner; infer_instance
  | succ n ih => unfold inner; infer_instance

/-! ## Whole sources -/

instance : Nests false src b c (skipSemicolons : Parser Unit) := by
  have hround : ∀ u, Halts (semicolonRound u) := fun _ => ⟨fun c => by simp [yields_eats]⟩
  unfold skipSemicolons
  infer_instance

instance : Nests false src b c wholeExpr := by
  unfold wholeExpr
  infer_instance

instance : Nests false src b c wholeDecl := by
  unfold wholeDecl
  infer_instance

instance : Nests false src b c wholeStmt := by
  unfold wholeStmt
  infer_instance

instance : (Cursor.start (tokenize src) src.utf8ByteSize).Ready src where
  ahead := List.suffix_refl _
  sourceEnd := rfl
  lastStop := isBoundary_zero src
  lastStop_le := Nat.zero_le _

instance : c.From src 0 := ⟨Nat.zero_le _, fun _ => isBoundary_zero src⟩

end Grammar

end GoGloss
