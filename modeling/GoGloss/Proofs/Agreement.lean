import GoGloss.Proofs.Agreement.Expressions

/-!
# Readers agree

Every production that may lie inside another agrees with itself on other productions
one level further in, if those agree. By induction on the levels all of them do: two
runs over the same tokens have the same outcome, or the one that starts deeper meets
the limit.
-/

namespace GoGloss

/-! ## What a statement in a header comes to -/

namespace Stmt

/-- The expression that a statement consists of, or whether it is an assignment instead. -/
def asHeader : Stmt → Except Bool Expr
  | .expr _ x => .ok x
  | .assign .. => .error true
  | _ => .error false

/-- Whether a statement declares variables. -/
def defines : Stmt → Bool
  | .assign _ _ .define _ _ => true
  | _ => false

theorem asHeader_bare (s : Stmt) : s.bare.asHeader = s.asHeader.map Expr.bare := by
  cases s <;> rfl

theorem defines_bare (s : Stmt) : s.bare.defines = s.defines := by
  cases s with
  | assign span lhs op opPos rhs => cases op <;> rfl
  | _ => rfl

theorem isTypeGuard_bare (s : Stmt) : s.bare.isTypeGuard = s.isTypeGuard := by
  cases s with
  | expr span x => exact x.isTypeGuard_bare
  | assign span lhs op opPos rhs =>
      match lhs, rhs with
      | [_], [x] => cases op <;> simp [isTypeGuard, Expr.isTypeGuard_bare]
      | [], _ | _ :: _ :: _, _ | [_], [] | [_], _ :: _ :: _ => cases op <;> simp [isTypeGuard]
  | _ => rfl

end Stmt

/-- The label that a list of expressions may turn out to be. -/
def labelOf? : List Expr → Option Name
  | [.ident label] => some label
  | _ => none

theorem labelOf?_bare (xs : List Expr) :
    labelOf? (xs.map Expr.bare) = (labelOf? xs).map Name.bare := by
  match xs with
  | [] => rfl
  | [x] => cases x <;> rfl
  | _ :: _ :: _ => simp [labelOf?]

namespace Grammar

theorem headerExpr_eq (part : HeaderPart) (s : Stmt) : headerExpr part s =
    match s.asHeader with
    | .ok x => pure x
    | .error assignment => failAt s.span (.notAnExpression part assignment) := by
  cases s <;> rfl

variable {k : Nat}

theorem headerExpr_agree (part : HeaderPart) {s s' : Stmt} (h : s.bare = s'.bare) :
    Agree k Expr.bare (headerExpr part s) (headerExpr part s') := by
  have hheader : s.asHeader.map Expr.bare = s'.asHeader.map Expr.bare := by
    rw [← Stmt.asHeader_bare, h, Stmt.asHeader_bare]
  rw [headerExpr_eq, headerExpr_eq]
  cases hs : s.asHeader <;> cases hs' : s'.asHeader <;> simp [hs, hs', Except.map] at hheader
  · subst hheader
    exact agree_failAt rfl
  · exact agree_pure hheader

theorem oneExpr_agree {xs xs' : List Expr} (h : xs.map Expr.bare = xs'.map Expr.bare) :
    Agree k Expr.bare (oneExpr xs) (oneExpr xs') := by
  match xs, xs' with
  | [x], [x'] => exact agree_pure (by simpa using h)
  | [], [] | _ :: _ :: _, _ :: _ :: _ => exact agree_failAt rfl
  | [], _ :: _ | [_], [] | [_], _ :: _ :: _ | _ :: _ :: _, [] | _ :: _ :: _, [_] => simp at h

theorem checkPost_eq (post : Option Stmt) : checkPost post =
    if post.any Stmt.defines then failAt (post.elim default Stmt.span) .declarationInPost
    else pure () := by
  cases post with
  | none => rfl
  | some s =>
      cases s with
      | assign span lhs op opPos rhs => cases op <;> rfl
      | _ => rfl

theorem checkPost_agree {post post' : Option Stmt} (h : post.map Stmt.bare = post'.map Stmt.bare) :
    Agree k id (checkPost post) (checkPost post') := by
  have hdefines : ∀ s : Option Stmt, s.any Stmt.defines = (s.map Stmt.bare).any Stmt.defines := by
    intro s
    cases s <;> simp [Stmt.defines_bare]
  rw [checkPost_eq, checkPost_eq, hdefines post, hdefines post', h]
  exact .ite (agree_failAt rfl) (agree_pure rfl)

theorem loopCondition_agree {s s' : Option Stmt} (h : s.map Stmt.bare = s'.map Stmt.bare) :
    Agree k (Option.map Expr.bare) (loopCondition s) (loopCondition s') := by
  cases s <;> cases s' <;> simp at h
  · exact agree_pure rfl
  · exact (headerExpr_agree _ h).some

section Productions

variable {inner inner' : Inner} (hi : inner.Agree k inner')
include hi

/-! ## Declarations -/

omit hi in
theorem importName?_agree : Agree k (Option.map ImportName.bare) importName? importName? := by
  refine agree_peek.same fun t => ?_
  split
  · exact .take fun _ _ => agree_pure rfl
  · refine .ite (.take fun _ _ => agree_pure rfl) ?_
    exact agree_name.bind fun n n' hn => agree_pure (by simp [ImportName.bare, hn])
  · exact agree_pure rfl

omit hi in
theorem importSpec_agree : Agree k Spec.bare importSpec importSpec := by
  refine importName?_agree.bind fun n n' hn => agree_textLiteral?.bind fun path path' hpath => ?_
  cases path <;> cases path' <;> simp at hpath
  · exact agree_failExpected
  · exact agree_pure (by simp [hn, hpath])

theorem initialValues_agree :
    Agree k (List.map Expr.bare) (initialValues inner) (initialValues inner') :=
  (agree_eats _).same fun _ => .ite (exprList_agree hi) (agree_pure rfl)

theorem constSpec_agree : Agree k Spec.bare (constSpec inner) (constSpec inner') := by
  refine agree_nameList.bind fun names names' hnames => agree_peek.same fun t => ?_
  split
  · exact agree_pure (by simp [hnames])
  · exact agree_pure (by simp [hnames])
  · exact agree_pure (by simp [hnames])
  · refine (type?_agree hi).bind fun t t' ht => ?_
    refine (initialValues_agree hi).bind fun values values' hvalues => ?_
    exact agree_pure (by simp [hnames, ht, hvalues])

theorem varSpec_agree : Agree k Spec.bare (varSpec inner) (varSpec inner') := by
  refine agree_nameList.bind fun names names' hnames => (agree_isAt _).same fun _ => ?_
  refine Agree.join (agree_pure rfl) (type_agree hi).some fun t t' ht => ?_
  refine (initialValues_agree hi).bind fun values values' hvalues => ?_
  exact agree_pure (by simp [hnames, ht, hvalues])

theorem typeSpec_agree : Agree k Spec.bare (typeSpec inner) (typeSpec inner') := by
  refine agree_name.bind fun n n' hn => (agree_eat _).bind fun assign assign' hassign => ?_
  exact (type_agree hi).bind fun t t' ht => agree_pure (by simp [hn, hassign, ht])

theorem spec_agree (word : DeclWord) : Agree k Spec.bare (spec inner word) (spec inner' word) := by
  cases word with
  | import_ => exact importSpec_agree
  | const_ => exact constSpec_agree hi
  | var_ => exact varSpec_agree hi
  | type_ => exact typeSpec_agree hi

theorem groupDecl_agree : Agree k Decl.bare (groupDecl inner) (groupDecl inner') := by
  refine .here fun _ _ => agree_peek.same fun t => ?_
  split
  · exact agree_failExpected
  · refine .take fun _ _ => agree_eat_bind (fun lparen lparen' => ?_) ?_
    · refine (spec_agree hi _).endedListUntil.bind fun specs specs' hspecs => ?_
      refine .expect fun _ _ => .span fun _ _ => ?_
      exact agree_makeDecl (by simp [hspecs, bareSpan])
    · refine (spec_agree hi _).bind fun s s' hs => .span fun _ _ => ?_
      exact agree_makeDecl (by simp [hs])

/-! ## Simple statements -/

theorem assignment_agree (start start' : Nat) {lhs lhs' : List Expr}
    (hlhs : lhs.map Expr.bare = lhs'.map Expr.bare) (op : AssignOp) :
    Agree k Stmt.bare (assignment inner start lhs op) (assignment inner' start' lhs' op) := by
  refine .take fun _ _ => (exprList_agree hi).bind fun rhs rhs' hrhs => ?_
  exact .makeStmt fun _ _ => by simp [hlhs, hrhs]

theorem afterExpr_agree (start start' : Nat) {x x' : Expr} (hx : x.bare = x'.bare) :
    Agree k Stmt.bare (afterExpr inner start x) (afterExpr inner' start' x') := by
  refine agree_peek.same fun t => ?_
  split
  · refine .take fun _ _ => (expr_agree hi).bind fun value value' hvalue => ?_
    exact .makeStmt fun _ _ => by simp [hx, hvalue]
  · split
    · refine .take fun _ _ => ?_
      exact .makeStmt fun _ _ => by simp [hx]
    · exact .makeStmt fun _ _ => by simp [hx]

theorem afterExprs_agree (start start' : Nat) {lhs lhs' : List Expr}
    (hlhs : lhs.map Expr.bare = lhs'.map Expr.bare) :
    Agree k Stmt.bare (afterExprs inner start lhs) (afterExprs inner' start' lhs') := by
  refine agree_peek.same fun t => ?_
  split
  · exact assignment_agree hi _ _ hlhs _
  · exact (oneExpr_agree hlhs).bind fun x x' hx => afterExpr_agree hi _ _ hx

theorem simpleStmt_agree : Agree k Stmt.bare (simpleStmt inner) (simpleStmt inner') := by
  refine .here fun _ _ => (exprList_agree hi).bind fun lhs lhs' hlhs => ?_
  exact afterExprs_agree hi _ _ hlhs

omit hi in
theorem labelOf?_eq_some {xs : List Expr} {label : Name} :
    labelOf? xs = some label ↔ xs = [.ident label] := by
  unfold labelOf?
  split <;> simp_all

theorem simpleOrLabeled_agree :
    Agree k Stmt.bare (simpleOrLabeled inner) (simpleOrLabeled inner') := by
  refine .here fun start start' => (exprList_agree hi).bind fun lhs lhs' hlhs => ?_
  have hlabel : (labelOf? lhs).map Name.bare = (labelOf? lhs').map Name.bare := by
    rw [← labelOf?_bare, hlhs, labelOf?_bare]
  refine agree_peek.same fun t => ?_
  split
  · rename_i label
    obtain ⟨label', hlabel', hbare⟩ : ∃ label', labelOf? lhs' = some label' ∧
        label'.bare = label.bare := by
      simpa [labelOf?] using hlabel.symm
    obtain rfl := labelOf?_eq_some.mp hlabel'
    refine .drop <| (stmt_agree hi).bind fun s s' hs => ?_
    exact .makeStmt fun _ _ => by simp [hbare, hs]
  · rename_i hnone
    split
    · rename_i label'
      obtain ⟨label, hlabel'⟩ : ∃ label, labelOf? lhs = some label := by
        cases h : labelOf? lhs <;> simp_all [labelOf?]
      exact (hnone label (labelOf?_eq_some.mp hlabel') rfl).elim
    · exact afterExprs_agree hi _ _ hlhs

/-! ## Control statements -/

theorem ifHeader_agree : Agree k (Prod.map (Option.map Stmt.bare) Expr.bare)
    (ifHeader inner) (ifHeader inner') := by
  refine (agree_isAt _).same fun _ => .ite agree_failHere ?_
  have hheader : Agree k (Prod.map (Option.map Stmt.bare) (Option.map Stmt.bare))
      (Body.ifParts (simpleStmt inner)) (Body.ifParts (simpleStmt inner')) := by
    refine (agree_isAt _).same fun _ => ?_
    refine Agree.join (agree_pure rfl) (simpleStmt_agree hi).some fun init init' hinit => ?_
    refine (agree_eats _).same fun _ => .ite ?_ (agree_pure (by simp [hinit]))
    refine (agree_isAt _).same fun _ => .ite agree_failHere ?_
    exact (simpleStmt_agree hi).bind fun s s' hs => agree_pure (by simp [hinit, hs])
  refine hheader.inHeader.bind fun ⟨init, cond⟩ header' hheader => ?_
  obtain ⟨init', cond'⟩ := header'
  simp only [Prod.map, Prod.mk.injEq] at hheader
  cases cond <;> cases cond' <;> simp at hheader
  · exact agree_failHere
  · refine (headerExpr_agree _ hheader.2).bind fun x x' hx => agree_pure ?_
    simp [hheader.1, hx]

theorem ifStmt_agree : Agree k Stmt.bare (ifStmt inner) (ifStmt inner') := by
  refine .here fun start start' => .skip ?_
  refine (ifHeader_agree hi).bind fun header header' hheader => ?_
  refine (block_agree hi).bind fun body body' hbody => (agree_eats _).same fun otherwise => ?_
  simp only [Prod.map, Prod.mk.injEq] at hheader
  have hmake : ∀ otherwise otherwise' : Option Stmt,
      otherwise.map Stmt.bare = otherwise'.map Stmt.bare →
      Agree k Stmt.bare
        (do makeStmt (.ifElse (← spanFrom start) header.1 header.2 body otherwise))
        (do makeStmt (.ifElse (← spanFrom start') header'.1 header'.2 body' otherwise')) := by
    intro otherwise otherwise' hotherwise
    refine .span fun _ _ => agree_makeStmt ?_
    simp [hheader, hbody, hotherwise]
  refine .ite (agree_peek.same fun t => ?_) ((agree_pure rfl).bind hmake)
  split
  · exact hi.ifStmt.nested.some.bind hmake
  · refine .here fun _ _ => (block_agree hi).bind fun b b' hb => ?_
    refine .span fun _ _ => ?_
    exact (agree_makeStmt (by simp [hb])).some.bind hmake
  · exact agree_failExpected.bind hmake

omit hi in
/-- What the header of a `for` says, without its places. -/
def ForHeader.unplaced : ForHeader Expr Stmt → ForHeader Expr Stmt
  | .range key value op operand =>
    .range (key.map Expr.bare) (value.map Expr.bare) op operand.bare
  | .clauses init cond post =>
    .clauses (init.map Stmt.bare) (cond.map Stmt.bare) (post.map Stmt.bare)

theorem rangeClause_agree {vars vars' : List Expr}
    (hvars : vars.map Expr.bare = vars'.map Expr.bare) (op : AssignOp) :
    Agree k ForHeader.unplaced (rangeClause inner vars op) (rangeClause inner' vars' op) := by
  have hvar : ∀ n : Nat, vars[n]?.map Expr.bare = vars'[n]?.map Expr.bare := by
    intro n
    simpa using congrArg (·[n]?) hvars
  have hrange : Agree k ForHeader.unplaced
      (do return .range vars[0]? vars[1]? (some op) (← expr inner))
      (do return .range vars'[0]? vars'[1]? (some op) (← expr inner')) := by
    refine (expr_agree hi).bind fun x x' hx => agree_pure ?_
    simp [ForHeader.unplaced, hvar, hx]
  match vars, vars' with
  | _ :: _ :: _ :: _, _ :: _ :: _ :: _ => exact agree_failAt rfl
  | [], [] | [_], [_] | [_, _], [_, _] => exact hrange
  | [], _ :: _ | _ :: _, [] | [_], _ :: _ :: _ | _ :: _ :: _, [_] | [_, _], _ :: _ :: _ :: _
  | _ :: _ :: _ :: _, [_, _] => simp at hvars

theorem forStart_agree : Agree k (Sum.map Stmt.bare ForHeader.unplaced)
    (forStart inner) (forStart inner') := by
  refine .here fun _ _ => (exprList_agree hi).bind fun lhs lhs' hlhs => ?_
  refine agree_peek.same fun t => ?_
  split
  · refine Agree.map ?_ fun s s' hs => congrArg Sum.inl hs
    exact (oneExpr_agree hlhs).bind fun x x' hx => afterExpr_agree hi _ _ hx
  · refine .take fun _ _ => (agree_isAt _).same fun _ => .ite ?_ ?_
    · refine .drop ?_
      exact (rangeClause_agree hi hlhs _).map fun h h' hh => congrArg Sum.inr hh
    · refine (exprList_agree hi).bind fun rhs rhs' hrhs => .span fun _ _ => ?_
      exact (agree_makeStmt (by simp [hlhs, hrhs])).map fun s s' hs => congrArg Sum.inl hs

theorem forClauses_agree {first first' : Option Stmt}
    (hfirst : first.map Stmt.bare = first'.map Stmt.bare) :
    Agree k ForHeader.unplaced (forClauses inner first) (forClauses inner' first') := by
  refine (agree_eats _).same fun _ => .ite ?_ (agree_pure (by simp [ForHeader.unplaced, hfirst]))
  refine (agree_isAt _).same fun _ => ?_
  refine Agree.join (agree_pure rfl) (simpleStmt_agree hi).some fun cond cond' hcond => ?_
  refine agree_expectEnd.same fun _ => (agree_isAt _).same fun _ => ?_
  refine Agree.join (agree_pure rfl) (simpleStmt_agree hi).some fun post post' hpost => ?_
  exact agree_pure (by simp [ForHeader.unplaced, hfirst, hcond, hpost])

theorem forHeader_agree : Agree k ForHeader.unplaced (forHeader inner) (forHeader inner') := by
  refine agree_peek.same fun t => ?_
  split
  · exact agree_pure rfl
  · exact forClauses_agree hi rfl
  · refine .drop <| (expr_agree hi).bind fun x x' hx => ?_
    exact agree_pure (by simp [ForHeader.unplaced, hx])
  · refine (forStart_agree hi).bind fun start start' hstart => ?_
    cases start <;> cases start' <;> simp at hstart
    · exact forClauses_agree hi (by simp [hstart])
    · exact agree_pure hstart

theorem forStmt_agree : Agree k Stmt.bare (forStmt inner) (forStmt inner') := by
  refine .here fun _ _ => .skip ?_
  refine (forHeader_agree hi).inHeader.bind fun header header' hheader => ?_
  refine (block_agree hi).bind fun body body' hbody => ?_
  cases header <;> cases header' <;> simp [ForHeader.unplaced] at hheader
  · refine .span fun _ _ => agree_makeStmt ?_
    simp [hheader, hbody]
  · obtain ⟨hinit, hcond, hpost⟩ := hheader
    refine (checkPost_agree hpost).bind fun _ _ _ => ?_
    refine (loopCondition_agree hcond).bind fun x x' hx => ?_
    exact .makeStmt fun _ _ => by simp [hinit, hx, hpost, hbody]

theorem switchHeader_agree : Agree k (Prod.map (Option.map Stmt.bare) (Option.map Stmt.bare))
    (switchHeader inner) (switchHeader inner') := by
  refine (agree_isAt _).same fun _ => .ite (agree_pure rfl) ((agree_isAt _).same fun _ => ?_)
  refine Agree.join (agree_pure rfl) (simpleStmt_agree hi).some fun first first' hfirst => ?_
  refine (agree_eats _).same fun _ => .ite ?_ (agree_pure (by simp [hfirst]))
  refine (agree_isAt _).same fun _ => .ite (agree_pure (by simp [hfirst])) ?_
  exact (simpleStmt_agree hi).bind fun tag tag' htag => agree_pure (by simp [hfirst, htag])

theorem clauseBody_agree {clause clause' : Span → List Stmt → Stmt}
    (hclause : ∀ span span' b b', b.map Stmt.bare = b'.map Stmt.bare →
      (clause span b).bare = (clause' span' b').bare) (start start' : Nat) :
    Agree k Stmt.bare (Body.clauseBody (stmtList inner) clause start)
      (Body.clauseBody (stmtList inner') clause' start') := by
  refine .skip <| (stmtList_agree hi).bind fun b b' hb => ?_
  exact .makeStmt fun _ _ => hclause _ _ b b' hb

theorem caseClause_agree (types : Bool) :
    Agree k Stmt.bare (caseClause inner types) (caseClause inner' types) := by
  refine .here fun start start' => (agree_eats _).same fun _ => ?_
  have hbody : ∀ cases cases' : List Expr, cases.map Expr.bare = cases'.map Expr.bare →
      Agree k Stmt.bare (Body.clauseBody (stmtList inner) (.caseClause · cases ·) start)
        (Body.clauseBody (stmtList inner') (.caseClause · cases' ·) start') :=
    fun cases cases' hcases => clauseBody_agree hi (fun _ _ b b' hb => by simp [hcases, hb]) _ _
  refine .ite (Agree.join (type_agree hi).commaList (exprList_agree hi) hbody) ?_
  exact .skip <| (agree_pure rfl).bind hbody

theorem commClause_agree : Agree k Stmt.bare (commClause inner) (commClause inner') := by
  refine .here fun start start' => (agree_eats _).same fun _ => ?_
  have hbody : ∀ comm comm' : Option Stmt, comm.map Stmt.bare = comm'.map Stmt.bare →
      Agree k Stmt.bare (Body.clauseBody (stmtList inner) (.commClause · comm ·) start)
        (Body.clauseBody (stmtList inner') (.commClause · comm' ·) start') :=
    fun comm comm' hcomm => clauseBody_agree hi (fun _ _ b b' hb => by simp [hcomm, hb]) _ _
  refine .ite ((simpleStmt_agree hi).some.bind hbody) ?_
  exact .skip <| (agree_pure rfl).bind hbody

omit hi in
theorem clauseBlock_agree {clause clause' : Parser Stmt} (h : Agree k Stmt.bare clause clause') :
    Agree k Block.bare (clauseBlock clause) (clauseBlock clause') := by
  refine .expect fun _ _ => ?_
  refine (@Agree.collect _ _ _ Stmt.bare _ _ (agree_peek.same fun t => ?_)).bind
    fun clauses clauses' hclauses => ?_
  · split
    · exact h.bind fun s s' hs => agree_pure (congrArg Round.more hs)
    · exact h.bind fun s s' hs => agree_pure (congrArg Round.more hs)
    · exact agree_pure rfl
  · exact .expect fun _ _ => agree_pure (by simp [hclauses])

theorem switchStmt_agree : Agree k Stmt.bare (switchStmt inner) (switchStmt inner') := by
  refine .here fun _ _ => .skip ?_
  refine (switchHeader_agree hi).inHeader.bind fun ⟨init, tag⟩ header' hheader => ?_
  obtain ⟨init', tag'⟩ := header'
  obtain ⟨hinit, htag⟩ : init.map Stmt.bare = init'.map Stmt.bare ∧
      tag.map Stmt.bare = tag'.map Stmt.bare := by simpa using hheader
  have hguard : tag.any Stmt.isTypeGuard = tag'.any Stmt.isTypeGuard := by
    cases tag <;> cases tag' <;> simp at htag ⊢
    rw [← Stmt.isTypeGuard_bare, htag, Stmt.isTypeGuard_bare]
  dsimp only
  rw [hguard]
  refine (clauseBlock_agree (caseClause_agree hi _)).bind fun body body' hbody => ?_
  cases tag <;> cases tag' <;> simp at htag
  · refine .span fun _ _ => agree_makeStmt ?_
    simp [hinit, hbody]
  · refine .ite ?_ ?_
    · refine .span fun _ _ => agree_makeStmt ?_
      simp [hinit, htag, hbody]
    · refine (headerExpr_agree _ htag).bind fun x x' hx => ?_
      exact .makeStmt fun _ _ => by simp [hinit, hx, hbody]

theorem selectStmt_agree : Agree k Stmt.bare (selectStmt inner) (selectStmt inner') := by
  refine .here fun _ _ => .drop ?_
  refine (clauseBlock_agree (commClause_agree hi)).bind fun body body' hbody => ?_
  exact .makeStmt fun _ _ => by simp [hbody]

/-! ## All statements -/

theorem callAfter_agree (word : Keyword) :
    Agree k Expr.bare (callAfter inner word) (callAfter inner' word) := by
  refine (expr_agree hi).bind fun x x' hx => ?_
  rw [← Expr.isCall_bare x, hx, Expr.isCall_bare]
  exact .ite (agree_pure hx) (agree_failAt rfl)

theorem goStmt_agree : Agree k Stmt.bare (goStmt inner) (goStmt inner') := by
  refine .here fun _ _ => .take fun _ _ => ?_
  refine (callAfter_agree hi _).bind fun x x' hx => ?_
  exact .makeStmt fun _ _ => by simp [hx]

theorem deferStmt_agree : Agree k Stmt.bare (deferStmt inner) (deferStmt inner') := by
  refine .here fun _ _ => .take fun _ _ => ?_
  refine (callAfter_agree hi _).bind fun x x' hx => ?_
  exact .makeStmt fun _ _ => by simp [hx]

theorem returnStmt_agree : Agree k Stmt.bare (returnStmt inner) (returnStmt inner') := by
  refine .here fun start start' => agree_take.bind fun pos pos' _ => ?_
  have hresults : ∀ results results' : List Expr, results.map Expr.bare = results'.map Expr.bare →
      Agree k Stmt.bare (do makeStmt (.ret (← spanFrom start) pos results))
        (do makeStmt (.ret (← spanFrom start') pos' results')) := by
    intro results results' hresults
    exact .makeStmt fun _ _ => by simp [hresults]
  refine agree_peek.same fun t => ?_
  split
  · exact (agree_pure rfl).bind hresults
  · exact (agree_pure rfl).bind hresults
  · exact (agree_pure rfl).bind hresults
  · exact (exprList_agree hi).bind hresults

omit hi in
theorem jumpLabel_agree (kind : Jump) :
    Agree k (Option.map Name.bare) (jumpLabel kind) (jumpLabel kind) := by
  cases kind with
  | fallthrough_ => exact agree_pure rfl
  | break_ | continue_ | goto_ =>
      refine agree_peek.same fun t => ?_
      split
      · exact agree_name.some
      · exact agree_pure rfl

omit hi in
theorem jumpStmt_agree (kind : Jump) : Agree k Stmt.bare (jumpStmt kind) (jumpStmt kind) := by
  refine .here fun _ _ => .drop ?_
  refine (jumpLabel_agree kind).bind fun label label' hlabel => ?_
  exact .makeStmt fun _ _ => by simp [hlabel]

theorem blockStmt_agree : Agree k Stmt.bare (blockStmt inner) (blockStmt inner') := by
  refine .here fun _ _ => (block_agree hi).bind fun body body' hbody => ?_
  exact .makeStmt fun _ _ => by simp [hbody]

theorem declStmt_agree : Agree k Stmt.bare (declStmt inner) (declStmt inner') := by
  refine .here fun _ _ => (groupDecl_agree hi).bind fun d d' hd => ?_
  exact .makeStmt fun _ _ => by simp [hd]

theorem stmtHere_agree : Agree k Stmt.bare (stmtHere inner) (stmtHere inner') := by
  have hempty : Agree k Stmt.bare emptyStmt emptyStmt :=
    .here fun _ _ => agree_makeStmt rfl
  refine agree_peek.same fun t => ?_
  split
  iterate 3 exact hempty
  iterate 3 exact declStmt_agree hi
  · exact goStmt_agree hi
  · exact deferStmt_agree hi
  · exact returnStmt_agree hi
  · exact blockStmt_agree hi
  · exact ifStmt_agree hi
  · exact forStmt_agree hi
  · exact switchStmt_agree hi
  · exact selectStmt_agree hi
  · split
    · exact jumpStmt_agree _
    · exact .ite agree_failExpected (simpleOrLabeled_agree hi)

end Productions

/-! ## All levels -/

theorem Inner.Agree.over {deeper deeper' : Inner} (h : deeper.Agree k deeper') :
    (Inner.over deeper).Agree k (Inner.over deeper') where
  binary := binary_agree h
  unary := unary_agree h
  type? := typeHere?_agree h
  literalValue := literalValue_agree h
  stmt := stmtHere_agree h
  ifStmt := ifStmt_agree h

theorem Inner.agree_none (hk : 0 < k) (inner : Inner) : Inner.none.Agree k inner where
  binary _ _ _ _ := .deep hk rfl
  unary _ _ _ := .deep hk rfl
  type? _ _ _ := .deep hk rfl
  literalValue _ _ _ _ _ _ := .deep hk rfl
  stmt _ _ _ := .deep hk rfl
  ifStmt _ _ _ := .deep hk rfl

/-- With fewer levels to go a reader agrees with one that starts less deep. -/
theorem inner_agree (hk : 0 < k) (n j : Nat) : (inner n).Agree k (inner (n + j)) := by
  induction n with
  | zero => exact Inner.agree_none hk _
  | succ n ih =>
      rw [Nat.succ_add]
      exact ih.over

end Grammar

end GoGloss
