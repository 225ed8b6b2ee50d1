import GoGloss.Proofs.Replay.Expressions

/-!
# Declarations and statements read again

Statements stand in the bodies of function literals, so they end in front of the brace
that closes the body, and all they look at is in front of the cut.
-/

namespace GoGloss.Grammar

variable {k : Cut} {i j : Inner} [h : Inner.Repeats k i j]

/-! ## Declarations -/

instance : Repeats k .alike 1 importName? importName? := by
  refine .step fun t => ?_
  split <;> infer_instance

instance : Gains k .alike 1 importSpec importSpec :=
  .after fun _ => .of_some inferInstance (by simp) inferInstance

include h

instance : Repeats k .alike 1 (initialValues i) (initialValues j) := by
  unfold initialValues
  infer_instance

instance : Gains k .alike 1 (constSpec i) (constSpec j) := by
  refine .step fun names => .step fun t => ?_
  split <;> infer_instance

instance : Gains k .alike 1 (varSpec i) (varSpec j) := by
  refine .step fun names => .step fun assign => ?_
  dsimp only
  split <;> infer_instance

instance (word : DeclWord) : Gains k .alike 1 (spec i word) (spec j word) := by
  cases word with
  | import_ => exact inferInstanceAs (Gains k .alike 1 importSpec importSpec)
  | const_ => exact inferInstanceAs (Gains k .alike 1 (constSpec i) (constSpec j))
  | var_ => exact inferInstanceAs (Gains k .alike 1 (varSpec i) (varSpec j))
  | type_ => exact inferInstanceAs (Gains k .alike 1 (typeSpec i) (typeSpec j))

instance : Repeats k .alike 1 (groupDecl i) (groupDecl j) := by
  refine .step fun start => .step fun t => ?_
  split
  · infer_instance
  · refine .step fun wordPos => .step fun lparen => ?_
    split <;> infer_instance

/-! ## Simple statements -/

instance (start : Nat) (x : Expr) :
    Repeats k .alike 1 (afterExpr i start x) (afterExpr j start x) := by
  refine .step fun t => ?_
  split
  · infer_instance
  · split <;> infer_instance

omit h in
instance (xs : List Expr) : Repeats k .alike 1 (oneExpr xs) (oneExpr xs) := by
  unfold oneExpr
  split <;> infer_instance

instance (start : Nat) (lhs : List Expr) :
    Repeats k .alike 1 (afterExprs i start lhs) (afterExprs j start lhs) := by
  refine .step fun t => ?_
  split <;> infer_instance

instance : Repeats k .alike 1 (simpleStmt i) (simpleStmt j) := by
  unfold simpleStmt
  infer_instance

instance : Repeats k .alike 1 (simpleOrLabeled i) (simpleOrLabeled j) := by
  refine .step fun start => .step fun lhs => ?_
  refine .step fun t => ?_
  split <;> infer_instance

/-! ## Headers -/

omit h in
instance (part : HeaderPart) (s : Stmt) :
    Repeats k .alike 1 (headerExpr part s) (headerExpr part s) := by
  unfold headerExpr
  split <;> infer_instance

instance : Repeats k .alike 1 (ifHeader i) (ifHeader j) := by
  refine .step fun brace => ?_
  split
  · infer_instance
  · refine .bind (.inHeader (.step fun semicolon => ?_)) fun ⟨init, cond⟩ => ?_
    · dsimp only
      split
      all_goals exact .step fun init => inferInstance
    · cases cond <;> infer_instance

instance : Gains k .alike 1 (ifStmt i) (ifStmt j) := by
  refine .after fun start => .step fun _ => ?_
  refine .step fun header => .step fun body => ?_
  refine .step fun otherwise => ?_
  dsimp only
  split
  · refine .step fun t => ?_
    split <;> infer_instance
  · infer_instance

instance (vars : List Expr) (op : AssignOp) :
    Repeats k .alike 1 (rangeClause i vars op) (rangeClause j vars op) := by
  unfold rangeClause Body.rangeClause
  split <;> infer_instance

instance : Repeats k .alike 1 (forStart i) (forStart j) := by
  refine .step fun start => .step fun lhs => ?_
  refine .step fun t => ?_
  split <;> infer_instance

instance (first : Option Stmt) :
    Repeats k .alike 1 (forClauses i first) (forClauses j first) := by
  refine .step fun semicolon => ?_
  split
  · refine .step fun bare => ?_
    dsimp only
    split
    all_goals exact .step fun cond => inferInstance
  · infer_instance

instance : Repeats k .alike 1 (forHeader i) (forHeader j) := by
  refine .step fun t => ?_
  split
  · infer_instance
  · infer_instance
  · infer_instance
  · refine .step fun start => ?_
    split <;> infer_instance

omit h in
instance (post : Option Stmt) : Repeats k .alike 1 (checkPost post) (checkPost post) := by
  unfold checkPost
  split <;> infer_instance

omit h in
instance (s : Option Stmt) : Repeats k .alike 1 (loopCondition s) (loopCondition s) := by
  unfold loopCondition
  split <;> infer_instance

instance : Repeats k .alike 1 (forStmt i) (forStmt j) := by
  refine .step fun start => .step fun _ => ?_
  refine .step fun header => .step fun body => ?_
  split <;> infer_instance

/-! ## Switches -/

instance : Repeats k .alike 1 (switchHeader i) (switchHeader j) := by
  refine .step fun brace => ?_
  split
  · infer_instance
  · refine .step fun semicolon => ?_
    dsimp only
    split
    all_goals exact .step fun first => inferInstance

instance (types : Bool) : Gains k .alike 1 (caseClause i types) (caseClause j types) := by
  refine .after fun start => .after fun case => ?_
  dsimp only
  split
  · split
    all_goals exact .after fun cases => inferInstance
  · exact .step fun _ => inferInstance

instance : Gains k .alike 1 (commClause i) (commClause j) := by
  refine .after fun start => .after fun case => ?_
  dsimp only
  split
  · exact .after fun comm => inferInstance
  · exact .step fun _ => inferInstance

omit h in
/-- A clause takes the word it starts with. -/
theorem repeats_clauseBlock {clause clause' : Parser Stmt}
    (hclause : Gains k .alike 1 clause clause') :
    Repeats k .alike 1 (clauseBlock clause) (clauseBlock clause') := by
  refine .step fun lbrace => .bind (.collect (.step fun t => ?_) ?_)
    fun clauses => inferInstance
  · split <;> infer_instance
  · intro c
    rw [yields_bind, yields_peek]
    split
    · rw [yields_bind]
      exact (hclause.takes c).mono fun _ _ hlt => yields_pure.mpr fun _ => hlt
    · rw [yields_bind]
      exact (hclause.takes c).mono fun _ _ hlt => yields_pure.mpr fun _ => hlt
    · simp [Round.goesOn]

instance : Repeats k .alike 1 (switchStmt i) (switchStmt j) := by
  have hblock : ∀ types, Repeats k .alike 1 (clauseBlock (caseClause i types))
      (clauseBlock (caseClause j types)) := fun _ => repeats_clauseBlock inferInstance
  refine .step fun start => .step fun _ => ?_
  refine .step fun header => .step fun body => ?_
  split <;> infer_instance

instance : Repeats k .alike 1 (selectStmt i) (selectStmt j) := by
  have hblock : Repeats k .alike 1 (clauseBlock (commClause i)) (clauseBlock (commClause j)) :=
    repeats_clauseBlock inferInstance
  unfold selectStmt
  infer_instance

/-! ## All statements -/

instance (word : Keyword) : Repeats k .alike 1 (callAfter i word) (callAfter j word) := by
  unfold callAfter
  infer_instance

instance : Repeats k .alike 1 (returnStmt i) (returnStmt j) := by
  refine .step fun start => .step fun pos => ?_
  refine .step fun t => ?_
  dsimp only
  split <;> infer_instance

omit h in
instance (kind : Jump) : Repeats k .alike 1 (jumpLabel kind) (jumpLabel kind) := by
  unfold jumpLabel
  split
  · infer_instance
  · refine .step fun t => ?_
    split <;> infer_instance

instance : Repeats k .alike 1 (stmtHere i) (stmtHere j) := by
  refine .step fun t => ?_
  split
  iterate 3 exact (by unfold emptyStmt; infer_instance)
  iterate 3 exact (by unfold declStmt; infer_instance)
  · unfold goStmt; infer_instance
  · unfold deferStmt; infer_instance
  · infer_instance
  · unfold blockStmt; infer_instance
  · infer_instance
  · infer_instance
  · infer_instance
  · infer_instance
  · split
    · unfold jumpStmt; infer_instance
    · infer_instance

omit h in
/-- No statement starts with a closing parenthesis. -/
theorem stmtHere_rparen {c : Cursor} (hhead : c.head.token = .mark .rparen) :
    Yields (stmtHere i) c fun _ _ => False := by
  simp [stmtHere, hhead, Jump.ofToken?, startsNoStmt]

omit h

/-! ## All levels -/

/-- With no level to go, a reader stops at the limit. -/
theorem Repeats.of_tooDeep {α : Type} {ℓ : LevelRule} {e : Nat} {p q : Parser α}
    (hp : Repeats k ℓ e p q) : Repeats k ℓ e p (failHere .tooDeep) where
  moves := hp.moves
  again _ _ _ _ _ _ _ := ⟨trivial, rfl⟩

theorem Gains.of_tooDeep {α : Type} {ℓ : LevelRule} {e : Nat} {p q : Parser α}
    (hp : Gains k ℓ e p q) : Gains k ℓ e p (failHere .tooDeep) where
  toRepeats := hp.repeats.of_tooDeep
  takes := hp.takes

theorem GainsSome.of_tooDeep {α : Type} {ℓ : LevelRule} {e : Nat} {p q : Parser (Option α)}
    (hp : GainsSome k ℓ e p q) : GainsSome k ℓ e p (failHere .tooDeep) where
  toRepeats := hp.toRepeats.of_tooDeep
  takes := hp.takes

theorem Rises.of_tooDeep {p q : Parser Expr} (hp : Rises k p q) :
    Rises k p (failHere .tooDeep) where
  moves := hp.moves
  takes := hp.takes
  again _ _ _ _ _ _ _ := ⟨trivial, rfl⟩

theorem Rises.of_fails {p q : Parser Expr} (hp : ∀ c, Yields p c fun _ _ => False) :
    Rises k p q where
  moves c := (hp c).mono fun _ _ => False.elim
  takes c := (hp c).mono fun _ _ => False.elim
  again c _ _ := (hp c).mono fun _ _ => False.elim

theorem Inner.repeats_over (h : Inner.Repeats k i j) : Inner.Repeats k (.over i) (.over j) where
  binary least := inferInstanceAs (Rises k (Grammar.binary i least) (Grammar.binary j least))
  unary := inferInstanceAs (Rises k (Grammar.unary i) (Grammar.unary j))
  type? ℓ := inferInstanceAs (GainsSome k ℓ 0 (typeHere? i) (typeHere? j))
  literalValue ℓ t start :=
    inferInstanceAs (Gains k ℓ 0 (Grammar.literalValue i t start) (Grammar.literalValue j t start))
  stmt := inferInstanceAs (Grammar.Repeats k .alike 1 (stmtHere i) (stmtHere j))
  stmt_rparen _ := stmtHere_rparen
  ifStmt := inferInstanceAs (Gains k .alike 1 (Grammar.ifStmt i) (Grammar.ifStmt j))

theorem Inner.repeats_none (j : Inner) : Inner.Repeats k .none j where
  binary _ := .of_fails fun _ => yields_failHere
  unary := .of_fails fun _ => yields_failHere
  type? _ := @gainsSome_of_gains _ _ _ _ _ _ (.of_fails fun _ => yields_failHere)
  literalValue _ _ _ := .of_fails fun _ => yields_failHere
  stmt := .of_fails fun _ => yields_failHere
  stmt_rparen _ _ := yields_failHere
  ifStmt := .of_fails fun _ => yields_failHere

theorem Inner.Repeats.by_none (h : Inner.Repeats k i j) : Inner.Repeats k i .none where
  binary least := (h.binary least).of_tooDeep
  unary := h.unary.of_tooDeep
  type? ℓ := (h.type? ℓ).of_tooDeep
  literalValue ℓ t start := (h.literalValue ℓ t start).of_tooDeep
  stmt := h.stmt.of_tooDeep
  stmt_rparen := h.stmt_rparen
  ifStmt := h.ifStmt.of_tooDeep

/-- The productions with any number of levels to go are repeated with any other number. -/
instance inner_repeats (n m : Nat) : Inner.Repeats k (inner n) (inner m) := by
  induction n generalizing m with
  | zero => exact Inner.repeats_none (inner m)
  | succ n ih =>
      cases m with
      | zero => exact (Inner.repeats_over (ih 0)).by_none
      | succ m => exact Inner.repeats_over (ih m)

end GoGloss.Grammar
