import GoGloss.Proofs.Recursion.Expressions

/-!
# Declarations and statements within the budget

The remaining productions do the same when they are watched, if those they call do;
and so, with the budget to count on, all of them do.
-/

namespace GoGloss.Grammar.Production

variable {α : Type} {ls : List Lexeme} {b n r : Nat}
  {call : ∀ {α : Type}, Production α → Parser α}

/-! ## Checks -/

instance (part : HeaderPart) (s : Stmt) : Step (headerExpr part s) := by
  cases s with
  | expr => exact inferInstanceAs (Step (pure _))
  | _ => exact ⟨tracks_failAt Fault.noConfusion⟩

instance (xs : List Expr) : Step (oneExpr xs) := by
  match xs with
  | [_] => exact inferInstanceAs (Step (pure _))
  | [] | _ :: _ :: _ => exact ⟨tracks_failAt Fault.noConfusion⟩

instance (post : Option Stmt) : Step (checkPost post) := by
  unfold checkPost
  split
  · exact ⟨tracks_failAt Fault.noConfusion⟩
  · infer_instance

instance (s : Option Stmt) : Step (loopCondition s) := by
  cases s with
  | none => exact inferInstanceAs (Step (pure none))
  | some s => exact inferInstanceAs (Step (some <$> headerExpr .conditionOrRange s))

section Productions

variable (h : Follows ls b call)

/-! ## Declarations -/

theorem importName?_kept : importName?.Kept ls b n call := by
  refine tracks_step.bind fun t => ?_
  split
  · exact tracks_step
  · exact .ite tracks_step tracks_step
  · exact tracks_step

include h

theorem importSpec_kept : importSpec.Kept ls b n call := by
  refine (h.calls importName? rfl).bind fun name => tracks_textLiteral?.bindOn (fun path _ => ?_)
    fun path hpath => ?_
  · split
    · exact tracks_step
    · exact tracks_failExpected
  · cases path with
    | none => exact tracks_failExpected
    | some path => exact (hpath rfl).elim

theorem initialValues_kept : initialValues.Kept ls b n call :=
  tracks_step.bind fun _ => .ite (h.calls exprList rfl) tracks_step

theorem constSpec_kept : constSpec.Kept ls b n call := by
  refine (h.taking nameList rfl rfl).first fun names => tracks_step.bind fun t => ?_
  split
  iterate 3 exact tracks_step
  exact (h.calls type? rfl).bind fun _ => (h.calls initialValues rfl).bind fun _ => tracks_step

theorem varSpec_kept : varSpec.Kept ls b n call := by
  refine (h.taking nameList rfl rfl).first fun names => tracks_step.bind fun _ => ?_
  refine .join tracks_step (h.calls type rfl).some fun t => ?_
  exact (h.calls initialValues rfl).bind fun _ => tracks_step

theorem typeSpec_kept : typeSpec.Kept ls b n call := by
  refine tracks_taking.first fun name => tracks_step.bind fun assign => ?_
  exact (h.calls type rfl).bind fun _ => tracks_step

theorem spec_kept (word : DeclWord) : (spec word).Kept ls b n call := by
  cases word with
  | import_ => exact h.taking importSpec rfl rfl
  | const_ => exact h.taking constSpec rfl rfl
  | var_ => exact h.taking varSpec rfl rfl
  | type_ => exact h.taking typeSpec rfl rfl

theorem groupDecl_kept : groupDecl.Kept ls b n call := by
  refine tracks_step.bind fun start => tracks_step.bind fun t => ?_
  split
  · exact tracks_failExpected
  · refine tracks_step.bind fun wordPos => tracks_step.bind fun lparen => ?_
    split
    · exact (h.taking (spec _) rfl rfl).first fun _ => tracks_step
    · refine (h.taking (spec _) rfl rfl).endedRound.collect.bind fun specs => ?_
      exact tracks_taking.first fun _ => tracks_step

theorem funcDecl_kept : funcDecl.Kept ls b n call := by
  refine tracks_step.bind fun start => tracks_taking.first fun func => tracks_step.bind fun _ => ?_
  refine .join (h.calls parameters rfl).some tracks_step fun receiver => ?_
  refine tracks_step.bind fun name => ?_
  refine (h.calls signature rfl).bind fun _ => tracks_step.bind fun _ => ?_
  refine tracks_step.bind fun t => ?_
  exact tracks_step.bind fun _ => .join (h.calls block rfl).some tracks_step fun _ => tracks_step

theorem decl_kept : decl.Kept ls b n call :=
  tracks_step.bind fun _ => .ite (h.taking funcDecl rfl rfl) (h.taking groupDecl rfl rfl)

/-! ## Simple statements -/

theorem assignment_kept (start : Nat) (lhs : List Expr) (op : AssignOp) :
    (assignment start lhs op).Kept ls b n call :=
  tracks_step.bind fun _ => (h.taking exprList rfl rfl).first fun _ => tracks_step

theorem afterExpr_kept (start : Nat) (x : Expr) : (afterExpr start x).Kept ls b n call := by
  refine tracks_step.bind fun t => ?_
  split
  · exact tracks_step.bind fun _ => (h.calls expr rfl).bind fun _ => tracks_step
  · split
    · exact tracks_step
    · exact tracks_step

theorem afterExprs_kept (start : Nat) (lhs : List Expr) :
    (afterExprs start lhs).Kept ls b n call := by
  refine tracks_step.bind fun t => ?_
  split
  · exact h.calls (assignment _ _ _) rfl
  · exact tracks_step.bind fun x => h.calls (afterExpr start x) rfl

theorem simpleStmt_kept : simpleStmt.Kept ls b n call := by
  refine tracks_step.bind fun start => (h.taking exprList rfl rfl).first fun lhs => ?_
  exact h.calls (afterExprs start lhs) rfl

theorem simpleOrLabeled_kept : simpleOrLabeled.Kept ls b n call := by
  refine tracks_step.bind fun start => (h.taking exprList rfl rfl).first fun lhs => ?_
  refine tracks_step.bind fun t => ?_
  split
  · exact tracks_step.bind fun _ => (h.calls stmt rfl).bind fun _ => tracks_step
  · exact h.calls (afterExprs start _) rfl

/-! ## Headers -/

theorem ifHeader_kept : ifHeader.Kept ls b n call := by
  refine tracks_step.bind fun _ => .ite (tracks_failHere Fault.noConfusion) ?_
  refine (Tracks.inHeader ?_).andThen fun header => ?_
  · refine tracks_step.bind fun _ => .join tracks_step (h.calls simpleStmt rfl).some fun init => ?_
    refine tracks_step.bind fun _ => .ite (tracks_step.bind fun _ => .ite ?_ ?_) tracks_step
    · exact tracks_failHere Fault.noConfusion
    · exact (h.calls simpleStmt rfl).bind fun _ => tracks_step
  · dsimp only
    split
    · exact tracks_step
    · exact tracks_failHere Fault.noConfusion

theorem ifStmt_kept : ifStmt.Kept ls b n call := by
  refine tracks_step.bind fun start => tracks_taking.first fun _ => ?_
  refine (h.calls ifHeader rfl).bind fun header => (h.calls block rfl).bind fun body => ?_
  refine tracks_step.bind fun _ => .ite (tracks_step.bind fun t => ?_) tracks_step
  split
  · exact (h.nested ifStmt rfl (fun _ => rfl) rfl).some.bind fun _ => tracks_step
  · exact tracks_step.bind fun _ => (h.calls block rfl).bind fun _ => tracks_step
  · exact tracks_failExpected.andThen fun _ => tracks_step

theorem rangeClause_kept (vars : List Expr) (op : AssignOp) :
    (rangeClause vars op).Kept ls b n call := by
  have hrange : Tracks ls b n 1 always
      (do return (.range vars[0]? vars[1]? (some op) (← call expr) : ForHeader Expr Stmt))
      (do return .range vars[0]? vars[1]? (some op) (← expr.reader (inner n))) :=
    (h.taking expr rfl rfl).first fun _ => tracks_step
  have hextra : ∀ x : Expr, Tracks ls b n 1 always
      (failAt x.span .tooManyIterationVariables : Parser (ForHeader Expr Stmt))
      (failAt x.span .tooManyIterationVariables) := fun _ => tracks_failAt Fault.noConfusion
  match vars with
  | _ :: _ :: extra :: _ => exact hextra extra
  | [] | [_] | [_, _] => exact hrange

theorem forStart_kept : forStart.Kept ls b n call := by
  refine tracks_step.bind fun start => (h.taking exprList rfl rfl).first fun lhs => ?_
  refine tracks_step.bind fun t => ?_
  split
  · exact (tracks_step.bind fun x => h.calls (afterExpr start x) rfl).map fun _ => id
  · refine tracks_step.bind fun opPos => tracks_step.bind fun _ => .ite ?_ ?_
    · exact tracks_step.bind fun _ => (h.calls (rangeClause lhs _) rfl).map fun _ => id
    · exact (h.calls exprList rfl).bind fun _ => tracks_step

theorem forClauses_kept (first : Option Stmt) : (forClauses first).Kept ls b n call := by
  refine tracks_step.bind fun _ => .ite (tracks_step.bind fun _ => ?_) tracks_step
  refine .join tracks_step (h.calls simpleStmt rfl).some fun cond => tracks_step.bind fun _ => ?_
  refine tracks_step.bind fun _ => .join tracks_step (h.calls simpleStmt rfl).some fun post => ?_
  exact tracks_step

theorem forHeader_kept : forHeader.Kept ls b n call := by
  refine tracks_step.bind fun t => ?_
  split
  · exact tracks_step
  · exact h.calls (forClauses none) rfl
  · exact tracks_step.bind fun _ => (h.calls expr rfl).bind fun _ => tracks_step
  · refine (h.calls forStart rfl).bind fun start => ?_
    cases start with
    | inl first => exact h.calls (forClauses (some first)) rfl
    | inr clause => exact tracks_step

theorem forStmt_kept : forStmt.Kept ls b n call := by
  refine tracks_step.bind fun start => tracks_taking.first fun _ => ?_
  refine (h.calls forHeader rfl).inHeader.bind fun header => (h.calls block rfl).bind fun body => ?_
  split
  · exact tracks_step
  · exact tracks_step

/-! ## Switches -/

theorem switchHeader_kept : switchHeader.Kept ls b n call := by
  refine tracks_step.bind fun _ => .ite tracks_step (tracks_step.bind fun _ => ?_)
  refine .join tracks_step (h.calls simpleStmt rfl).some fun first => tracks_step.bind fun _ => ?_
  refine .ite (tracks_step.bind fun _ => .ite tracks_step ?_) tracks_step
  exact (h.calls simpleStmt rfl).bind fun _ => tracks_step

theorem caseClause_kept (types : Bool) : (caseClause types).Kept ls b n call := by
  refine tracks_step.bind fun start => (tracks_eats Token.noConfusion).bindOn (fun _ _ => ?_)
    fun eaten heaten => ?_
  · refine .ite (.join (h.taking type rfl rfl).commaRound.collect (h.calls exprList rfl)
      fun cases => ?_) ?_
    · exact tracks_step.bind fun _ => (h.calls stmtList rfl).bind fun _ => tracks_step
    · refine tracks_step.bind fun _ => tracks_step.bind fun cases => tracks_step.bind fun _ => ?_
      exact (h.calls stmtList rfl).bind fun _ => tracks_step
  · rw [if_neg heaten, if_neg heaten]
    refine tracks_taking.first fun _ => tracks_step.bind fun cases => tracks_step.bind fun _ => ?_
    exact (h.calls stmtList rfl).bind fun _ => tracks_step

theorem commClause_kept : commClause.Kept ls b n call := by
  refine tracks_step.bind fun start => tracks_step.bind fun _ => .ite ?_ ?_
  · refine (h.calls simpleStmt rfl).some.bind fun comm => tracks_taking.first fun _ => ?_
    exact (h.calls stmtList rfl).bind fun _ => tracks_step
  · refine tracks_taking.first fun _ => tracks_step.bind fun cases => tracks_step.bind fun _ => ?_
    exact (h.calls stmtList rfl).bind fun _ => tracks_step

theorem caseBlock_kept (types : Bool) : (caseBlock types).Kept ls b n call :=
  (h.taking (caseClause types) rfl rfl).clauseBlock

theorem commBlock_kept : commBlock.Kept ls b n call :=
  (h.taking commClause rfl rfl).clauseBlock

theorem switchStmt_kept : switchStmt.Kept ls b n call := by
  refine tracks_step.bind fun start => tracks_taking.first fun _ => ?_
  refine (h.calls switchHeader rfl).inHeader.bind fun header => ?_
  refine (h.calls (caseBlock _) rfl).bind fun body => ?_
  split
  · exact tracks_step
  · exact .ite tracks_step tracks_step

theorem selectStmt_kept : selectStmt.Kept ls b n call := by
  refine tracks_step.bind fun start => tracks_step.bind fun _ => ?_
  exact (h.taking commBlock rfl rfl).first fun _ => tracks_step

/-! ## All statements -/

theorem callAfter_kept (word : Keyword) : (callAfter word).Kept ls b n call := by
  refine (h.taking expr rfl rfl).first fun x => .ite tracks_step ?_
  exact tracks_failAt Fault.noConfusion

theorem goStmt_kept : goStmt.Kept ls b n call := by
  refine tracks_step.bind fun start => tracks_step.bind fun pos => ?_
  exact (h.taking (callAfter .go_) rfl rfl).first fun _ => tracks_step

theorem deferStmt_kept : deferStmt.Kept ls b n call := by
  refine tracks_step.bind fun start => tracks_step.bind fun pos => ?_
  exact (h.taking (callAfter .defer_) rfl rfl).first fun _ => tracks_step

theorem returnStmt_kept : returnStmt.Kept ls b n call := by
  refine fun c => tracksAt_here_bind (tracksAt_take.first (fun pos => ?_) fun _ => id)
  refine tracks_step.bind fun t => ?_
  split
  iterate 3 exact tracks_step
  exact (h.calls exprList rfl).bind fun _ => tracks_step

omit h in
theorem jumpLabel_kept (kind : Jump) : (jumpLabel kind).Kept ls b n call := by
  cases kind with
  | fallthrough_ => exact (tracks_step : Tracks ls b n 0 never (pure none) (pure none))
  | break_ | continue_ | goto_ =>
      refine tracks_step.bind fun t => ?_
      split
      · exact tracks_step
      · exact tracks_step

theorem jumpStmt_kept (kind : Jump) : (jumpStmt kind).Kept ls b n call := by
  refine fun c => tracksAt_here_bind (tracksAt_discard_take.first (fun _ => ?_) fun _ => id)
  exact (h.calls (jumpLabel kind) rfl).bind fun _ => tracks_step

omit h in
theorem emptyStmt_kept : emptyStmt.Kept ls b n call :=
  tracks_step.bind fun _ => tracks_step

theorem blockStmt_kept : blockStmt.Kept ls b n call :=
  tracks_step.bind fun _ => (h.taking block rfl rfl).first fun _ => tracks_step

theorem declStmt_kept : declStmt.Kept ls b n call :=
  tracks_step.bind fun _ => (h.taking groupDecl rfl rfl).first fun _ => tracks_step

theorem stmtHere_kept : stmtHere.Kept ls b n call := by
  refine fun c => tracksAt_peek_bind ?_
  have hone : ∀ p : Production Stmt, p.rank ≤ 8 → (∀ c s, p.takes c s) →
      TracksAt ls b n 8 (stmtHere.takes c) c (call p) (p.reader (inner n)) :=
    fun p hrank htakes => (h.at p hrank c).mono fun s _ => htakes c s
  have hempty : ¬ (∃ s, stmtHere.takes c s) →
      TracksAt ls b n 8 (stmtHere.takes c) c (call emptyStmt) (emptyStmt.reader (inner n)) :=
    fun hnone => ((h.calls emptyStmt rfl) c).mono fun s hs => hnone ⟨s, hs⟩
  split
  · next ht => exact hempty (by rintro ⟨_, hs⟩; exact hs.1 ht)
  · next ht => exact hempty (by rintro ⟨_, hs⟩; exact hs.2.1 ht)
  · next ht => exact hempty (by rintro ⟨_, hs⟩; exact hs.2.2 ht)
  iterate 3 exact hone declStmt (by decide) fun _ _ => trivial
  · exact hone goStmt (by decide) fun _ _ => trivial
  · exact hone deferStmt (by decide) fun _ _ => trivial
  · exact (h.at returnStmt (by decide) c).mono fun _ hs => hs.2.2
  · exact hone blockStmt (by decide) fun _ _ => trivial
  · exact hone ifStmt (by decide) fun _ _ => trivial
  · exact hone forStmt (by decide) fun _ _ => trivial
  · exact hone switchStmt (by decide) fun _ _ => trivial
  · exact hone selectStmt (by decide) fun _ _ => trivial
  · split
    · exact (h.at (jumpStmt _) (Nat.le_of_ble_eq_true rfl) c).mono fun _ hs => hs.2.2
    · split
      · exact tracks_failExpected c
      · exact hone simpleOrLabeled (by decide) fun _ _ => trivial

/-! ## Whole sources -/

theorem wholeExpr_kept : wholeExpr.Kept ls b n call := by
  refine (h.calls expr rfl).bind fun x => tracks_step.bind fun c => ?_
  exact .ite tracks_step tracks_step

theorem wholeDecl_kept : wholeDecl.Kept ls b n call :=
  (h.calls decl rfl).bind fun _ => tracks_step.bind fun _ =>
    tracks_semicolons.bind fun _ => tracks_step

theorem wholeStmt_kept : wholeStmt.Kept ls b n call :=
  (h.calls stmt rfl).bind fun _ => tracks_step.bind fun _ =>
    tracks_semicolons.bind fun _ => tracks_step

/-! ## All productions -/

/-- Every production that is watched does what it does, if those it calls do. -/
theorem kept (p : Production α) : p.Kept ls b n call :=
  match p with
  | expr => expr_kept h
  | exprList => exprList_kept h
  | operandUnder => operandUnder_kept h
  | type? => type?_kept h
  | type => type_kept h
  | stmt => stmt_kept h
  | nameList => nameList_kept
  | paramType => paramType_kept h
  | instantiated start t => instantiated_kept h start t
  | typeName => typeName_kept h
  | paramEntry => paramEntry_kept h
  | parameters => parameters_kept h
  | results => results_kept h
  | signature => signature_kept h
  | funcType => funcType_kept h
  | arrayLength => arrayLength_kept h
  | arrayType => arrayType_kept h
  | fieldNames => fieldNames_kept h
  | fieldDecl => fieldDecl_kept h
  | structType => structType_kept h
  | typeTerm => typeTerm_kept h
  | interfaceMethod => interfaceMethod_kept h
  | interfaceUnion => interfaceUnion_kept h
  | interfaceMember => interfaceMember_kept h
  | interfaceType => interfaceType_kept h
  | pointerType => pointerType_kept h
  | mapType => mapType_kept h
  | chanType => chanType_kept h
  | receiveType => receiveType_kept h
  | parenType => parenType_kept h
  | typeHere? => typeHere?_kept h
  | stmtList => stmtList_kept h
  | block => block_kept h
  | parenExpr => parenExpr_kept h
  | funcTypeOrLit => funcTypeOrLit_kept h
  | operand => operand_kept h
  | selectorOrAssertion x start => selectorOrAssertion_kept h x start
  | sliceBound => sliceBound_kept h
  | sliceBounds => sliceBounds_kept h
  | subscript => subscript_kept h
  | subscripted x start => subscripted_kept h x start
  | .call f start => call_kept h f start
  | elementValue => elementValue_kept h
  | element => element_kept h
  | literalValue t start => literalValue_kept h t start
  | primary => primary_kept h
  | receiveExpr => receiveExpr_kept h
  | starExpr => starExpr_kept h
  | unaryExpr op => unaryExpr_kept h op
  | unary => unary_kept h
  | binary least => binary_kept h least
  | importName? => importName?_kept
  | importSpec => importSpec_kept h
  | initialValues => initialValues_kept h
  | constSpec => constSpec_kept h
  | varSpec => varSpec_kept h
  | typeSpec => typeSpec_kept h
  | spec word => spec_kept h word
  | groupDecl => groupDecl_kept h
  | funcDecl => funcDecl_kept h
  | decl => decl_kept h
  | assignment start lhs op => assignment_kept h start lhs op
  | afterExpr start x => afterExpr_kept h start x
  | afterExprs start lhs => afterExprs_kept h start lhs
  | simpleStmt => simpleStmt_kept h
  | simpleOrLabeled => simpleOrLabeled_kept h
  | ifHeader => ifHeader_kept h
  | ifStmt => ifStmt_kept h
  | rangeClause vars op => rangeClause_kept h vars op
  | forStart => forStart_kept h
  | forClauses first => forClauses_kept h first
  | forHeader => forHeader_kept h
  | forStmt => forStmt_kept h
  | switchHeader => switchHeader_kept h
  | caseClause types => caseClause_kept h types
  | commClause => commClause_kept h
  | caseBlock types => caseBlock_kept h types
  | commBlock => commBlock_kept h
  | switchStmt => switchStmt_kept h
  | selectStmt => selectStmt_kept h
  | callAfter word => callAfter_kept h word
  | goStmt => goStmt_kept h
  | deferStmt => deferStmt_kept h
  | returnStmt => returnStmt_kept h
  | jumpLabel kind => jumpLabel_kept kind
  | jumpStmt kind => jumpStmt_kept h kind
  | emptyStmt => emptyStmt_kept
  | blockStmt => blockStmt_kept h
  | declStmt => declStmt_kept h
  | stmtHere => stmtHere_kept h
  | wholeExpr => wholeExpr_kept h
  | wholeDecl => wholeDecl_kept h
  | wholeStmt => wholeStmt_kept h

end Productions

theorem rank_pos (p : Production α) : 1 ≤ p.rank := by
  cases p <;> exact Nat.le_of_ble_eq_true rfl

/-- Calls that are watched and counted do what the productions do. -/
theorem run_follows {ok : Cursor → Prop} [DecidablePred ok]
    (hok : ∀ c : Cursor, c.rest <:+ ls → c.depth ≤ maxDepth → ok c) (b : Nat) :
    Follows ls b (run ok b) := by
  induction b with
  | zero =>
      -- With nothing left there is no room for a call.
      intro α p n c hc
      have := hc.calls_le
      have := p.rank_pos
      omega
  | succ b ih =>
      intro α p n c
      have hkept : p.Kept ls b n (run ok b) := kept ih p
      have hbody := Tracks.watched hok (hkept c)
      rw [body_reader, Nat.sub_add_cancel p.rank_pos] at hbody
      exact hbody

end GoGloss.Grammar.Production
