import GoGloss.Proofs.Fitting.Nodes
import GoGloss.Proofs.Recursion.Productions

/-!
# Every production behaves

Every production behaves at its levels, given that the productions one level further in
do: it keeps the expression level, and what it reads may stand by itself and fits. Most
of it is inferred. What a node asks of its parts beyond that is mostly checked late: a
header is read as a simple statement and judged afterwards, a call after `go` is read as
any expression. And it is only after an operand that a brace is taken to open a composite
literal or not: below zero it does so only after a type that cannot be taken for an
operand, so a literal that is read there fits.
-/

-- What a production infers has as many steps as the production.
set_option synthInstance.maxSize 1000

namespace GoGloss

open Node

namespace Grammar

/-! ## Parameter lists -/

variable {L : Levels} {i : Int}

theorem fit_groupParams {entries : List ParamEntry} {fields : List Field}
    (h : groupParams entries = .ok fields) (hentries : Fit L i entries) :
    Fit L i fields := by
  refine ⟨fun hj f hf => ?_⟩
  obtain ⟨e, he, htype⟩ := groupParams_type h f hf
  obtain ⟨span, names, t, tag⟩ := f
  obtain rfl : t = e.unnamedField.type := htype
  have ht : Fit L i e.unnamedField.type := ⟨fun _ => hentries.fits hj e he⟩
  exact (inferInstance : Fit L i (Field.mk span names _ tag)).fits hj

instance {n : Name} : Fit L i (ParamEntry.bare n) :=
  ⟨(inferInstance : Fit L i (Expr.ident n)).fits⟩

instance {n : Option Name} {t : Expr} {span : Span} [h : Fit L i t] :
    Fit L i (ParamEntry.typed n t span) :=
  ⟨h.fits⟩

/-! ## Levels -/

/-- A level at which statements may be read. -/
class StmtLevel (L : Levels) (i : Int) : Prop where
  mem : L.stmt i

/-- A level at which expressions may be read: one for statements, or that of headers. -/
class ExprLevel (L : Levels) (i : Int) : Prop where
  mem : i = -1 ∨ L.stmt i

instance : ExprLevel L (-1) := ⟨.inl rfl⟩
instance [h : StmtLevel L i] : ExprLevel L i := ⟨.inr h.mem⟩

/-- In brackets statements may be read, since a function literal may stand there. -/
instance [h : ExprLevel L i] : StmtLevel L (i + 1) := by
  rcases h.mem with rfl | h
  · exact ⟨L.zero⟩
  · exact ⟨L.succ h⟩

/-- What the productions further in do at their levels; `given` is called in place of `inner`. -/
class Inner.AtLevels (L : Levels) (given inner : Inner) : Prop where
  binary : ∀ {i : Int} [ExprLevel L i] (least : Nat),
    Behaves L i (given.binary least) (inner.binary least)
  unary : ∀ {i : Int} [ExprLevel L i], Behaves L i given.unary inner.unary
  type? : ∀ {i : Int} [ExprLevel L i], Behaves L i given.type? inner.type?
  literalValue : ∀ {i : Int} [ExprLevel L i] (start : Nat),
    AtLevel i (given.literalValue Option.none start) (inner.literalValue Option.none start)
      fun x => L.judged → IsElementPart x
  stmt : ∀ {i : Int} [StmtLevel L i], Behaves L i given.stmt inner.stmt
  ifStmt : ∀ {i : Int} [StmtLevel L i],
    AtLevel i given.ifStmt inner.ifStmt fun s => Fit L i s ∧ s.isElse

attribute [instance] Inner.AtLevels.binary Inner.AtLevels.unary Inner.AtLevels.type?
  Inner.AtLevels.stmt

variable {given inner : Inner} [h : Inner.AtLevels L given inner]

/-! ## Types -/

section

variable [ExprLevel L i]

instance : Behaves L i (expr given) (expr inner) := by
  unfold expr
  infer_instance

instance : Behaves L i (exprList given) (exprList inner) := by
  unfold exprList
  infer_instance

instance : Behaves L i (operandUnder given) (operandUnder inner) := by
  unfold operandUnder
  infer_instance

instance : Behaves L i (type? given) (type? inner) := by
  unfold type?
  infer_instance

instance : Behaves L i (type given) (type inner) := by
  refine .step fun t ht => ?_
  split
  · have := ht.of_some
    infer_instance
  · infer_instance

instance : Behaves L i (paramType given) (paramType inner) := by
  refine .step fun dots _ => ?_
  split <;> infer_instance

instance {start : Nat} {t : Expr} [Fit L i t] :
    Behaves L i (instantiated given start t) (instantiated inner start t) := by
  refine .step fun opened _ => ?_
  split
  · refine .step fun first hfirst => .step fun others hothers => ?_
    refine .step fun _ _ => .step fun span _ => ?_
    have : Fit L 0 first := hfirst.mono fun h => absurd h (by decide)
    have : Fit L 0 others := hothers.mono fun h => absurd h (by decide)
    split
    · infer_instance
    · rename_i hne
      have : Fit L i (Expr.indexList span t (first :: others)) := fit_indexList hne
      infer_instance
  · infer_instance

instance : Behaves L i (typeName given) (typeName inner) := by
  unfold typeName
  infer_instance

instance : Behaves L i (paramEntry given) (paramEntry inner) := by
  refine .step fun start _ => .step fun t _ => ?_
  split
  · refine .step fun second _ => ?_
    split <;> infer_instance
  · infer_instance

instance : Behaves L i (parameters given) (parameters inner) := by
  refine .step fun _ _ => .step fun entries hentries => ?_
  refine .step fun _ _ => ?_
  split
  · infer_instance
  · rename_i fields hgroup
    refine .step fun _ _ => ⟨.of_yields fun c _ => ?_⟩
    exact yields_mapM_makeField fun _ _ => fit_groupParams hgroup hentries

instance : Behaves L i (results given) (results inner) := by
  refine .step fun opened _ => ?_
  split
  · infer_instance
  · refine .step fun start _ => .step fun t ht => ?_
    split
    · infer_instance
    · have := ht.of_some
      infer_instance

instance : Behaves L i (signature given) (signature inner) := by
  unfold signature
  infer_instance

theorem atLevel_funcType : AtLevel i (funcType given) (funcType inner)
    fun t => Fit L i t ∧ t.isFuncType := by
  have hbehaves : Behaves L i (funcType given) (funcType inner) := by
    unfold funcType
    infer_instance
  refine hbehaves.atLevel.and (.andThen fun start => .andThen fun func => .andThen fun sig => ?_)
  exact .andThen fun span => makes_makeExpr rfl

instance : Behaves L i (funcType given) (funcType inner) :=
  ⟨atLevel_funcType.mono fun _ => And.left⟩

theorem atLevel_arrayLength : AtLevel i (arrayLength given) (arrayLength inner)
    fun length => ∀ x ∈ length, L.judged → IsLength x := by
  refine .after fun t => ?_
  split
  · exact .pure (by simp)
  · have hdots : ∀ pos, IsLength (.ellipsis pos pos none) := fun pos => by
      have hintact := intact_of (n := .expr (.ellipsis pos pos none)) (i := 0) trivial
        (by simp [header]) (fun _ => trivial) (by simp [children, exprChildren, expr?, exprs])
      exact ⟨hintact.1, hintact.2, fun _ => rfl⟩
    refine .after fun pos c hc => ⟨rfl, yields_bind.mpr (yields_makeExpr.mpr (yields_pure.mpr ?_))⟩
    exact ⟨hc, by simpa using fun _ => hdots pos⟩
  · have hexpr : Behaves L (i + 1) (expr given) (expr inner) := inferInstance
    refine hexpr.atLevel.bracketed.bind fun x hx => .pure ?_
    simp only [Option.mem_some_iff, forall_eq']
    intro hj
    obtain ⟨hstands, hfits⟩ : (Node.expr x).Sound (i + 1) := hx.fits hj
    exact ⟨hstands.2, hfits.enclosed, fun parent => hstands.1 parent _⟩

instance : Behaves L i (arrayType given) (arrayType inner) := by
  refine .step fun start _ => .step fun _ _ => ?_
  refine .after (atLevel_arrayLength (L := L)) fun length hlength => ?_
  refine .step fun _ _ => .step fun elem _ => ?_
  have (span : Span) : Fit L i (Expr.arrayType span length elem) := fit_arrayType hlength
  infer_instance

instance : Behaves L i nameList nameList := by
  unfold nameList
  infer_instance

instance : Behaves L i fieldNames fieldNames := by
  refine .step fun t _ => ?_
  split <;> infer_instance

instance : Behaves L i (fieldDecl given) (fieldDecl inner) := by
  unfold fieldDecl
  infer_instance

instance : Behaves L i (structType given) (structType inner) := by
  unfold structType
  infer_instance

instance : Behaves L i (typeTerm given) (typeTerm inner) := by
  refine .step fun start _ => .step fun tilde _ => ?_
  split <;> infer_instance

instance {start : Nat} {left : Expr} [Fit L i left] :
    Behaves L i (unionRound given start left) (unionRound inner start left) := by
  unfold unionRound
  infer_instance

theorem atLevel_interfaceMethod : AtLevel i (interfaceMethod given) (interfaceMethod inner)
    fun f => L.judged → IsMember i f := by
  have hsig : Behaves L i (signature given) (signature inner) := inferInstance
  refine .after fun start => .after fun n => .after fun sigStart => ?_
  refine hsig.atLevel.bind fun sig _ => ?_
  refine .after fun sigSpan c hc => ⟨rfl, yields_bind.mpr (yields_makeExpr.mpr ?_)⟩
  simpa [hc] using isMember_method inferInstance inferInstance

instance : Behaves L i (interfaceUnion given) (interfaceUnion inner) := by
  unfold interfaceUnion
  infer_instance

theorem atLevel_interfaceMember : AtLevel i (interfaceMember given) (interfaceMember inner)
    fun f => L.judged → IsMember i f := by
  have hunion : Behaves L i (interfaceUnion given) (interfaceUnion inner) := inferInstance
  refine .after fun t => .after fun t' => ?_
  split
  · exact atLevel_interfaceMethod
  · exact hunion.atLevel.mono fun _ => isMember_of_fit

instance : Behaves L i (interfaceType given) (interfaceType inner) := by
  refine .step fun start _ => .step fun _ _ => ?_
  refine .step fun _ _ => ?_
  refine .after (atLevel_interfaceMember (L := L)).endedListUntil fun members hmembers => ?_
  have (span : Span) : Fit L i (Expr.interfaceType span members) := fit_interfaceType hmembers
  infer_instance

instance : Behaves L i (mapType given) (mapType inner) := by
  unfold mapType
  infer_instance

instance : Behaves L i (parenType given) (parenType inner) := by
  refine .step fun start _ => .step fun lparen _ => ?_
  refine .step fun t ht => ?_
  have : Fit L 0 t := ht.mono fun h => absurd h (by decide)
  infer_instance

instance : Behaves L i (typeHere? given) (typeHere? inner) := by
  refine .step fun t _ => ?_
  split <;> infer_instance

end

/-! ## Blocks -/

section

variable [StmtLevel L i]

instance : Behaves L i (stmt given) (stmt inner) := by
  unfold stmt
  infer_instance

instance : Behaves L i (stmtList given) (stmtList inner) := by
  unfold stmtList
  infer_instance

instance : Behaves L i (block given) (block inner) := by
  unfold block
  infer_instance

end

/-! ## Expressions -/

section

variable [ExprLevel L i]

instance : Behaves L i (funcTypeOrLit given) (funcTypeOrLit inner) := by
  refine .step fun start _ => .after (atLevel_funcType (L := L)) fun t ⟨_, hfunc⟩ => ?_
  have (span : Span) (body : Fitted L 0 Block) : Fit L i (Expr.funcLit span t body.val) :=
    fit_funcLit hfunc
  infer_instance

instance : Behaves L i (operand given) (operand inner) := by
  refine .step fun t _ => ?_
  split
  · infer_instance
  · infer_instance
  · infer_instance
  · infer_instance
  · refine .step fun t ht => ?_
    split
    · have := ht.of_some
      infer_instance
    · infer_instance

instance {x : Expr} {start : Nat} [Fit L i x] :
    Behaves L i (selectorOrAssertion given x start) (selectorOrAssertion inner x start) := by
  refine .step fun _ _ => .step fun t _ => ?_
  split <;> infer_instance

instance : Behaves L i (sliceBound given) (sliceBound inner) := by
  refine .step fun t _ => ?_
  split <;> infer_instance

/-- A third bound comes with a second colon only. -/
theorem atLevel_sliceBounds : AtLevel i (sliceBounds given) (sliceBounds inner) fun bounds =>
    Fit L i bounds ∧ (bounds.2.2 = false → bounds.2.1 = none) := by
  have hbehaves : Behaves L i (sliceBounds given) (sliceBounds inner) := by
    unfold sliceBounds
    infer_instance
  refine hbehaves.atLevel.and fun c => ?_
  simp [sliceBounds]

/-- What stands between the brackets fits, and there is no third bound without a second colon. -/
def Subscript.Fits (i : Int) : Subscript Expr → Prop
  | .indices first others => Fitting.Fits i (first :: others)
  | .slice lo hi max full =>
    Fitting.Fits i lo ∧ Fitting.Fits i hi ∧ Fitting.Fits i max ∧ (full = false → max = none)

instance : Fitting (Subscript Expr) where
  Fits := Subscript.Fits
  mono {i j a} hij h := by
    cases a with
    | indices first others => exact Fitting.mono (a := first :: others) hij h
    | slice lo hi max full =>
        obtain ⟨hlo, hhi, hmax, hfull⟩ := h
        exact ⟨Fitting.mono hij hlo, Fitting.mono hij hhi, Fitting.mono hij hmax, hfull⟩

instance : Behaves L i (subscript given) (subscript inner) := by
  have hrest : ∀ first : Fitted L i (Option Expr), Behaves L i
      (Body.subscriptFrom (moreUntil .rbrack (expr given)) (sliceBounds given) first.val)
      (Body.subscriptFrom (moreUntil .rbrack (expr inner)) (sliceBounds inner) first.val) := by
    rintro ⟨first, hfirst⟩
    refine .step fun colon _ => ?_
    split
    · obtain rfl := ‹first = some _›
      refine .step fun others hothers => ⟨.pure ⟨fun hj => ?_⟩⟩
      exact List.forall_mem_cons.mpr ⟨hfirst.fits hj _ rfl, hothers.fits hj⟩
    · refine .after (atLevel_sliceBounds (L := L)) fun bounds hbounds => ⟨.pure ⟨fun hj => ?_⟩⟩
      obtain ⟨hhi, hmax, -⟩ := hbounds.1.fits hj
      exact ⟨hfirst.fits hj, hhi, hmax, hbounds.2⟩
  unfold subscript
  infer_instance

instance {x : Expr} {start : Nat} [Fit L i x] :
    Behaves L i (subscripted given x start) (subscripted inner x start) := by
  have hsub : Behaves L (i + 1) (subscript given) (subscript inner) := inferInstance
  refine .step fun _ _ => .after hsub.atLevel.bracketed fun sub hsub => ?_
  replace hsub : Fit L 0 sub := hsub.mono fun h => absurd h (by decide)
  refine .step fun rbrack _ => .step fun span _ => ?_
  split
  · have : Fit L 0 _ := ⟨fun hj => hsub.fits hj _ (.head _)⟩
    infer_instance
  · rename_i first others hothers
    have hindices := fun hj => List.forall_mem_cons.mp (hsub.fits hj)
    have : Fit L 0 first := ⟨fun hj => (hindices hj).1⟩
    have : Fit L 0 others := ⟨fun hj => (hindices hj).2⟩
    have : Fit L i (Expr.indexList span x (first :: others)) := fit_indexList hothers
    infer_instance
  · infer_instance
  · infer_instance
  · rename_i lo upper top full hmiddle hfinal
    have hshaped (hj : L.judged) : (Expr.slice span x lo upper top full).Shaped := by
      obtain ⟨-, -, -, hnotop⟩ := hsub.fits hj
      cases full with
      | false => simpa [Expr.Shaped] using hnotop
      | true =>
          -- a bound that is missing has been refused
          cases upper <;> cases top <;> simp_all [Expr.Shaped]
    have : Fit L i (Expr.slice span x lo upper top full) :=
      fit_slice ⟨fun hj => (hsub.fits hj).1⟩ ⟨fun hj => (hsub.fits hj).2.1⟩
        ⟨fun hj => (hsub.fits hj).2.2.1⟩ hshaped
    infer_instance

instance : Behaves L i (argRound given) (argRound inner) := by
  refine .step fun t _ => ?_
  split
  · infer_instance
  · infer_instance
  · refine .step fun x _ => .step fun dots _ => ?_
    split <;> infer_instance

instance {f : Expr} {start : Nat} [Fit L i f] :
    Behaves L i (call given f start) (call inner f start) := by
  unfold call
  infer_instance

theorem atLevel_elementValue : AtLevel i (elementValue given) (elementValue inner)
    fun x => L.judged → IsElementPart x := by
  have hexpr : Behaves L i (expr given) (expr inner) := inferInstance
  refine .after fun opened => .ite (fun _ => .after fun start => ?_) fun _ => ?_
  · exact (h.literalValue start).nested
  · refine hexpr.atLevel.mono fun x hx hj => ?_
    obtain ⟨hstands, hfits⟩ : (Node.expr x).Sound i := hx.fits hj
    exact ⟨hstands.2, hfits.enclosed, fun parent role _ => hstands.1 parent role⟩

theorem atLevel_element : AtLevel i (element given) (element inner)
    fun x => L.judged → IsElement x := by
  refine .after fun start => (atLevel_elementValue (L := L)).bind fun key hkey => ?_
  refine .after fun colon => ?_
  cases colon with
  | none => exact .pure fun hj => (hkey hj).isElement
  | some colon =>
      refine (atLevel_elementValue (L := L)).bind fun value hvalue => .after fun span c hc => ?_
      exact ⟨rfl, yields_makeExpr.mpr ⟨hc, fun hj => isElement_keyValue (hkey hj) (hvalue hj)⟩⟩

/-- A literal fits the levels that its type fits; in a header there has to be a type. -/
theorem atLevel_literalValue (t : Option Expr) (start : Nat) :
    AtLevel i (literalValue given t start) (literalValue inner t start) fun x => L.judged →
      ∃ span lbrace es rbrace, x = .composite span t lbrace es rbrace ∧ ∀ y ∈ es, IsElement y := by
  refine .after fun lbrace => ?_
  have helement : AtLevel (i + 1) (element given) (element inner)
      fun x => L.judged → IsElement x := atLevel_element
  refine helement.commaListUntil.bracketed.bind fun elements helements => ?_
  refine .after fun rbrace => .after fun span c hc => ⟨rfl, yields_makeExpr.mpr ⟨hc, fun hj => ?_⟩⟩
  exact ⟨_, _, _, _, rfl, fun y hy => helements y hy hj⟩

theorem atLevel_literalValue_none (start : Nat) :
    AtLevel i (literalValue given none start) (literalValue inner none start)
      fun x => L.judged → IsElementPart x := by
  refine (atLevel_literalValue (L := L) none start).mono fun x hx hj => ?_
  obtain ⟨span, lbrace, es, rbrace, rfl, hes⟩ := hx hj
  obtain ⟨hwf, hfits⟩ :=
    composite_intact span none lbrace es rbrace (i := 0) (by simp) (by simp) hes
  exact ⟨hwf, hfits, fun parent role hparent => hparent⟩

/-- After a type that opens a literal in a header, the literal is told from a body. -/
theorem isLiteralType_of_opensLiteral {x : Expr} (h : opensLiteral x i) (hi : i < 0) :
    x.unparen.isLiteralType := by
  unfold opensLiteral at h
  split at h
  all_goals simp_all [Expr.isLiteralType]
  all_goals omega

theorem behaves_literalValue_some {x : Expr} [hx : Fit L i x] (hopens : opensLiteral x i)
    (start : Nat) :
    Behaves L i (literalValue given (some x) start) (literalValue inner (some x) start) := by
  refine ⟨(atLevel_literalValue (L := L) (some x) start).mono fun y hy => ⟨fun hj => ?_⟩⟩
  obtain ⟨span, lbrace, es, rbrace, rfl, hes⟩ := hy hj
  obtain ⟨hwf, hfits⟩ := composite_intact span (some x) lbrace es rbrace
    (by simpa using hx.fits hj) (fun hi => ⟨x, rfl, isLiteralType_of_opensLiteral hopens hi⟩) hes
  exact ⟨⟨fun _ _ => trivial, hwf⟩, hfits⟩

instance {start : Nat} {x : Expr} [Fit L i x] :
    Behaves L i (postfixRound given start x) (postfixRound inner start x) := by
  have hget : AtLevel i (get : Parser Cursor) get fun c => c.exprLevel = i :=
    .of_yields fun c hc => yields_get.mpr hc
  refine .step fun t _ => ?_
  split
  · infer_instance
  · infer_instance
  · infer_instance
  · refine .after hget fun c hc => ?_
    rw [hc]
    split
    · rename_i hopens
      have : Behaves L i (literalValue given (some x) start) (literalValue inner (some x) start) :=
        behaves_literalValue_some hopens start
      infer_instance
    · infer_instance
  · infer_instance

instance : Behaves L i (primary given) (primary inner) := by
  unfold primary
  infer_instance

instance : Behaves L i (receiveExpr given) (receiveExpr inner) := by
  unfold receiveExpr
  infer_instance

instance : Behaves L i (starExpr given) (starExpr inner) := by
  unfold starExpr
  infer_instance

instance {op : UnaryOp} : Behaves L i (unaryExpr given op) (unaryExpr inner op) := by
  unfold unaryExpr
  infer_instance

instance : Behaves L i (unary given) (unary inner) := by
  refine .step fun t _ => ?_
  split
  · infer_instance
  · infer_instance
  · split <;> infer_instance

instance {least start : Nat} {left : Expr} [Fit L i left] :
    Behaves L i (binaryRound given least start left) (binaryRound inner least start left) := by
  refine .step fun t _ => ?_
  split <;> infer_instance

instance {least : Nat} : Behaves L i (binary given least) (binary inner least) := by
  unfold binary
  infer_instance

end

/-! ## Declarations -/

instance : Behaves L i importName? importName? := by
  refine .step fun t _ => ?_
  split <;> infer_instance

instance : Behaves L i importSpec importSpec := by
  refine .step fun n _ => .step fun path _ => ?_
  split <;> infer_instance

section

variable [ExprLevel L i]

instance : Behaves L i (initialValues given) (initialValues inner) := by
  unfold initialValues
  infer_instance

instance : Behaves L i (constSpec given) (constSpec inner) := by
  refine .step fun names _ => .step fun t _ => ?_
  split <;> infer_instance

instance : Behaves L i (varSpec given) (varSpec inner) := by
  unfold varSpec
  infer_instance

instance {word : DeclWord} : Behaves L i (spec given word) (spec inner word) := by
  cases word <;> unfold spec <;> infer_instance

instance : Behaves L i (groupDecl given) (groupDecl inner) := by
  refine .step fun start _ => .step fun t _ => ?_
  split
  · infer_instance
  · refine .step fun wordPos _ => .step fun lparen _ => ?_
    split <;> infer_instance

end

instance [StmtLevel L i] : Behaves L i (funcDecl given) (funcDecl inner) := by
  refine .step fun start _ => .step fun func _ => ?_
  refine .step fun method _ => .join fun receiver _ => ?_
  infer_instance

instance [StmtLevel L i] : Behaves L i (decl given) (decl inner) := by
  unfold decl
  infer_instance

/-! ## Simple statements -/

section

variable [ExprLevel L i]

instance {start : Nat} {x : Expr} [Fit L i x] :
    Behaves L i (afterExpr given start x) (afterExpr inner start x) := by
  refine .step fun t _ => ?_
  split
  · infer_instance
  · split <;> infer_instance

omit h [ExprLevel L i] in
instance {xs : List Expr} [hxs : Fit L i xs] : Behaves L i (oneExpr xs) (oneExpr xs) :=
  ⟨.of_yields fun _ _ => yields_oneExpr.mpr fun x hx => hxs.of_mem (by simp [hx])⟩

instance {start : Nat} {lhs : List Expr} [Fit L i lhs] :
    Behaves L i (afterExprs given start lhs) (afterExprs inner start lhs) := by
  refine .step fun t _ => ?_
  split <;> infer_instance

instance : Behaves L i (simpleStmt given) (simpleStmt inner) := by
  unfold simpleStmt
  infer_instance

end

instance [StmtLevel L i] : Behaves L i (simpleOrLabeled given) (simpleOrLabeled inner) := by
  refine .step fun start _ => .step fun lhs _ => ?_
  refine .step fun t _ => ?_
  split <;> infer_instance

/-! ## Headers -/

theorem atLevel_headerExpr {j : Int} (part : HeaderPart) {s : Stmt} (hs : Fit L j s) :
    AtLevel i (headerExpr part s) (headerExpr part s) (Fit L j) :=
  .of_yields fun _ _ => yields_headerExpr_iff.mpr fun _ _ hx => fit_of_exprStmt (hx ▸ hs)

/-- A header is read at its own level, wherever its statement stands. -/
theorem atLevel_ifHeader : AtLevel i (ifHeader given) (ifHeader inner) (Fit L (-1)) := by
  refine .after fun opened => .ite (fun _ => .of_fails fun _ _ => yields_failHere) fun _ => ?_
  refine (AtLevel.inHeader (?_ : AtLevel (-1) _ _ (Fit L (-1)))).bind fun parts hparts => ?_
  · exact Behaves.atLevel
  · obtain ⟨init, cond⟩ := parts
    have hinit : Fit L (-1) init := ⟨fun hj => (hparts.fits hj).1⟩
    cases cond with
    | none => exact .of_fails fun _ _ => yields_failHere
    | some cond =>
        have hcond : Fit L (-1) cond := ⟨fun hj => (hparts.fits hj).2 cond rfl⟩
        exact (atLevel_headerExpr .condition hcond).bind fun x hx => .pure inferInstance

/-- What the header of a loop says fits, and its variables come with an operator. -/
def ForHeader.Fits (i : Int) : ForHeader Expr Stmt → Prop
  | .range key value op x => Fitting.Fits i key ∧ Fitting.Fits i value ∧ Fitting.Fits i x ∧
    ∀ span body, (Stmt.range span key value op x body).Shaped
  | .clauses init cond post =>
    Fitting.Fits i init ∧ Fitting.Fits i cond ∧ Fitting.Fits i post

instance : Fitting (ForHeader Expr Stmt) where
  Fits := ForHeader.Fits
  mono {i j a} hij h := by
    cases a with
    | range key value op x =>
        obtain ⟨hkey, hvalue, hx, hshaped⟩ := h
        exact ⟨Fitting.mono hij hkey, Fitting.mono hij hvalue, Fitting.mono hij hx, hshaped⟩
    | clauses init cond post =>
        obtain ⟨hinit, hcond, hpost⟩ := h
        exact ⟨Fitting.mono hij hinit, Fitting.mono hij hcond, Fitting.mono hij hpost⟩

instance {init cond post : Option Stmt} [hinit : Fit L i init] [hcond : Fit L i cond]
    [hpost : Fit L i post] : Fit L i (.clauses init cond post : ForHeader Expr Stmt) :=
  ⟨fun hj => ⟨hinit.fits hj, hcond.fits hj, hpost.fits hj⟩⟩

section

variable [ExprLevel L i]

variable (given inner) in
theorem behaves_rangeClause {vars : List Expr} (hvars : Fit L i vars) (op : AssignOp)
    (hop : L.judged → vars ≠ [] ∧ op.introducesRange) :
    Behaves L i (rangeClause given vars op) (rangeClause inner vars op) := by
  unfold rangeClause Body.rangeClause
  split
  · infer_instance
  · rename_i hfew
    refine .step fun x hx => ⟨.pure ⟨fun hj => ⟨?_, ?_, hx.fits hj, ?_⟩⟩⟩
    · exact fun y hy => hvars.fits hj y (List.mem_of_getElem? hy)
    · exact fun y hy => hvars.fits hj y (List.mem_of_getElem? hy)
    · obtain ⟨hne, hop⟩ := hop hj
      obtain ⟨key, others, rfl⟩ := List.exists_cons_of_ne_nil hne
      cases op <;> simp_all [AssignOp.introducesRange, Stmt.Shaped]

instance : Behaves L i (forStart given) (forStart inner) := by
  have hlist : Behaves L i (exprList given) (exprList inner) := inferInstance
  refine .step fun start _ => ?_
  refine .after (hlist.atLevel.and Makes.commaList_ne_nil) fun lhs ⟨_, hne⟩ => ?_
  refine .step fun t _ => ?_
  split
  · infer_instance
  · refine .step fun opPos _ => .step fun ranges _ => ?_
    split
    · have hclause := fun op (hop : AssignOp.introducesRange op) =>
        behaves_rangeClause given inner (L := L) (i := i) ‹_› op fun _ => ⟨hne, hop⟩
      have := hclause _ (Bool.and_eq_true_iff.mp ‹_›).1
      infer_instance
    · infer_instance

instance {first : Option Stmt} [Fit L i first] :
    Behaves L i (forClauses given first) (forClauses inner first) := by
  refine .step fun semicolon _ => ?_
  split
  · refine .step fun ended _ => .join fun cond _ => ?_
    infer_instance
  · infer_instance

instance : Behaves L i (forHeader given) (forHeader inner) := by
  refine .step fun t _ => ?_
  split
  · infer_instance
  · infer_instance
  · refine .step fun _ _ => .step fun x hx => ⟨.pure ⟨fun hj => ?_⟩⟩
    exact ⟨by simp, by simp, hx.fits hj, by simp [Stmt.Shaped]⟩
  · refine .step fun start hstart => ?_
    cases start with
    | inl first =>
        have : Fit L i first := ⟨hstart.fits⟩
        exact inferInstanceAs (Behaves L i (forClauses given (some first)) _)
    | inr clause =>
        have : Fit L i clause := ⟨hstart.fits⟩
        exact inferInstanceAs (Behaves L i (pure clause) (pure clause))

instance : Behaves L i (switchHeader given) (switchHeader inner) := by
  unfold switchHeader
  infer_instance

end

/-- What is declared after each round is refused. -/
theorem atLevel_checkPost {post : Option Stmt} :
    AtLevel i (checkPost post) (checkPost post) fun _ => ∀ t ∈ post, t.isDefinition = false := by
  refine .of_yields fun c _ => ?_
  unfold checkPost
  split
  · exact yields_failAt
  · rename_i hpost
    refine yields_pure.mpr ?_
    rintro t rfl
    unfold Stmt.isDefinition
    split
    · exact absurd rfl (hpost _ _ _ _)
    · rfl

theorem atLevel_loopCondition {j : Int} {s : Option Stmt} (hs : Fit L j s) :
    AtLevel i (loopCondition s) (loopCondition s) (Fit L j) := by
  cases s with
  | none => exact .pure inferInstance
  | some s => exact (atLevel_headerExpr _ hs.of_some).map fun _ _ => inferInstance

/-! ## Control statements -/

section

variable [StmtLevel L i]

theorem atLevel_ifStmt : AtLevel i (ifStmt given) (ifStmt inner)
    fun s => Fit L i s ∧ s.isElse := by
  have hblock : Behaves L i (block given) (block inner) := inferInstance
  refine .after fun start => .after fun _ => (atLevel_ifHeader (L := L)).bind fun parts _ => ?_
  refine hblock.atLevel.bind fun body _ => .after fun otherwise => ?_
  -- What comes after the alternative is the same for all its forms.
  have hmade : ∀ otherwise, (∀ s ∈ otherwise, Fit L i s ∧ s.isElse) →
      AtLevel i (do makeStmt (.ifElse (← spanFrom start) parts.1 parts.2 body otherwise))
        (do makeStmt (.ifElse (← spanFrom start) parts.1 parts.2 body otherwise))
        fun s => Fit L i s ∧ s.isElse := by
    refine fun otherwise hotherwise => .after fun span c hc => ⟨rfl, yields_makeStmt.mpr ?_⟩
    exact ⟨hc, fit_ifElse hotherwise, rfl⟩
  refine .ite (fun _ => .after fun t => ?_) fun _ => (AtLevel.pure (by simp)).bind hmade
  split
  · refine AtLevel.bind ((h.ifStmt (i := i)).nested.map fun s hs => ?_) hmade
    simpa using hs
  · refine .after fun elseStart => hblock.atLevel.bind fun elseBody _ => .after fun span => ?_
    have hblock : AtLevel i (makeStmt (.block span elseBody)) (makeStmt (.block span elseBody))
        fun s => Fit L i s ∧ s.isElse :=
      fun c hc => ⟨rfl, yields_makeStmt.mpr ⟨hc, inferInstance, rfl⟩⟩
    exact AtLevel.bind (hblock.map fun s hs => by simpa using hs) hmade
  · exact AtLevel.bind (.of_fails fun _ _ => yields_failExpected) hmade

instance : Behaves L i (ifStmt given) (ifStmt inner) :=
  ⟨atLevel_ifStmt.mono fun _ => And.left⟩

instance : Behaves L i (forStmt given) (forStmt inner) := by
  have hheader : Behaves L (-1) (forHeader given) (forHeader inner) := inferInstance
  refine .step fun start _ => .step fun _ _ => ?_
  refine .after hheader.atLevel.inHeader fun header hheader => .step fun body _ => ?_
  cases header with
  | range key value op x =>
      have (span : Span) : Fit L i (Stmt.range span key value op x body) :=
        fit_range ⟨fun hj => (hheader.fits hj).1⟩ ⟨fun hj => (hheader.fits hj).2.1⟩
          ⟨fun hj => (hheader.fits hj).2.2.1⟩ fun hj => (hheader.fits hj).2.2.2 span body
      exact inferInstanceAs (Behaves L i (spanFrom start >>= fun span => makeStmt _) _)
  | clauses init cond post =>
      have : Fit L (-1) init := ⟨fun hj => (hheader.fits hj).1⟩
      have hcond : Fit L (-1) cond := ⟨fun hj => (hheader.fits hj).2.1⟩
      have : Fit L (-1) post := ⟨fun hj => (hheader.fits hj).2.2⟩
      refine .after atLevel_checkPost fun _ hpost => ?_
      refine .after (atLevel_loopCondition hcond) fun cond _ => ?_
      have (span : Span) : Fit L i (Stmt.loop span init cond post body) := fit_loop hpost
      infer_instance

/-! ## Switches -/

theorem atLevel_clauseBody {clause : Span → List Stmt → Stmt} {good : Stmt → Prop}
    (hclause : ∀ span body, Fit L i body → good (clause span body)) (start : Nat) :
    AtLevel i (Body.clauseBody (stmtList given) clause start)
      (Body.clauseBody (stmtList inner) clause start) good := by
  have hbody : Behaves L i (stmtList given) (stmtList inner) := inferInstance
  refine .after fun _ => hbody.atLevel.bind fun body _ => .after fun span c hc => ?_
  exact ⟨rfl, yields_makeStmt.mpr ⟨hc, hclause span body inferInstance⟩⟩

theorem atLevel_caseClause (types : Bool) : AtLevel i (caseClause given types)
    (caseClause inner types) fun s => L.judged → IsClause Stmt.isCaseClause i s := by
  have htypes : Behaves L i (commaList (type given)) (commaList (type inner)) := inferInstance
  have hexprs : Behaves L i (exprList given) (exprList inner) := inferInstance
  refine .after fun start => .after fun case => ?_
  have hmade : ∀ cases, Fit L i cases →
      AtLevel i (Body.clauseBody (stmtList given) (.caseClause · cases ·) start)
        (Body.clauseBody (stmtList inner) (.caseClause · cases ·) start)
        fun s => L.judged → IsClause Stmt.isCaseClause i s := by
    refine fun cases _ => atLevel_clauseBody (L := L) (fun span body _ => ?_) start
    exact isClause_caseClause
  refine .ite (fun _ => .ite (fun _ => ?_) fun _ => ?_) fun _ => .after fun _ => ?_
  · exact htypes.atLevel.bind hmade
  · exact hexprs.atLevel.bind hmade
  · exact hmade [] inferInstance

theorem atLevel_commClause : AtLevel i (commClause given) (commClause inner)
    fun s => L.judged → IsClause Stmt.isCommClause i s := by
  have hcomm : Behaves L i (some <$> simpleStmt given) (some <$> simpleStmt inner) := inferInstance
  refine .after fun start => .after fun case => ?_
  have hmade : ∀ comm, Fit L i comm →
      AtLevel i (Body.clauseBody (stmtList given) (.commClause · comm ·) start)
        (Body.clauseBody (stmtList inner) (.commClause · comm ·) start)
        fun s => L.judged → IsClause Stmt.isCommClause i s := by
    refine fun comm _ => atLevel_clauseBody (L := L) (fun span body _ => ?_) start
    exact isClause_commClause
  refine .ite (fun _ => ?_) fun _ => .after fun _ => ?_
  · exact hcomm.atLevel.bind hmade
  · exact hmade none inferInstance

theorem atLevel_clauseBlock {q p : Parser Stmt} {good : Stmt → Prop}
    (hclause : AtLevel i q p good) :
    AtLevel i (clauseBlock q) (clauseBlock p) fun b => ∀ s ∈ b.stmts, good s := by
  refine .after fun lbrace => ?_
  have hround : AtLevel i (Body.clauseRound q) (Body.clauseRound p)
      fun r => ∀ s ∈ r.item?, good s := by
    refine .after fun t => ?_
    split
    · exact hclause.bind fun s hs => .pure (by simpa [Round.item?] using hs)
    · exact hclause.bind fun s hs => .pure (by simpa [Round.item?] using hs)
    · exact .pure (by simp [Round.item?])
  exact hround.collect.bind fun clauses hclauses => .after fun rbrace => .pure hclauses

instance : Behaves L i (switchStmt given) (switchStmt inner) := by
  have hheader : Behaves L (-1) (switchHeader given) (switchHeader inner) := inferInstance
  refine .step fun start _ => .step fun _ _ => ?_
  refine .after hheader.atLevel.inHeader fun parts hparts => ?_
  obtain ⟨init, tag⟩ := parts
  have : Fit L (-1) init := ⟨fun hj => (hparts.fits hj).1⟩
  have htag : Fit L (-1) tag := ⟨fun hj => (hparts.fits hj).2⟩
  refine .after (atLevel_clauseBlock (atLevel_caseClause (L := L) _)) fun body hbody => ?_
  cases tag with
  | none =>
      have (span : Span) : Fit L i (Stmt.switch span init none body) := fit_switch hbody
      exact inferInstanceAs (Behaves L i (spanFrom start >>= fun span => makeStmt _) _)
  | some tag =>
      have := htag.of_some
      dsimp only
      split
      · rename_i hguard
        have (span : Span) : Fit L i (Stmt.typeSwitch span init tag body) :=
          fit_typeSwitch hguard hbody
        infer_instance
      · refine .after (atLevel_headerExpr .switchTag ‹_›) fun x _ => ?_
        have (span : Span) : Fit L i (Stmt.switch span init (some x) body) := fit_switch hbody
        infer_instance

instance : Behaves L i (selectStmt given) (selectStmt inner) := by
  refine .step fun start _ => .step fun _ _ => ?_
  refine .after (atLevel_clauseBlock (atLevel_commClause (L := L))) fun body hbody => ?_
  have (span : Span) : Fit L i (Stmt.select span body) := fit_select hbody
  infer_instance

/-! ## All statements -/

theorem atLevel_callAfter (word : Keyword) : AtLevel i (callAfter given word) (callAfter inner word)
    fun x => Fit L i x ∧ x.isCall := by
  have hexpr : Behaves L i (expr given) (expr inner) := inferInstance
  refine hexpr.atLevel.bind fun x hx => .ite (fun hcall => .pure ⟨hx, hcall⟩) fun _ => ?_
  exact .of_fails fun _ _ => yields_failAt

instance {word : Keyword} : Behaves L i (callAfter given word) (callAfter inner word) :=
  ⟨(atLevel_callAfter word).mono fun _ => And.left⟩

instance : Behaves L i (goStmt given) (goStmt inner) := by
  refine .step fun start _ => .step fun pos _ => ?_
  refine .after (atLevel_callAfter (L := L) .go_) fun x ⟨_, hcall⟩ => ?_
  have (span : Span) : Fit L i (Stmt.go span pos x) := fit_go hcall
  infer_instance

instance : Behaves L i (deferStmt given) (deferStmt inner) := by
  refine .step fun start _ => .step fun pos _ => ?_
  refine .after (atLevel_callAfter (L := L) .defer_) fun x ⟨_, hcall⟩ => ?_
  have (span : Span) : Fit L i (Stmt.defer span pos x) := fit_defer hcall
  infer_instance

instance : Behaves L i (returnStmt given) (returnStmt inner) := by
  refine .step fun start _ => .step fun pos _ => ?_
  refine .step fun t _ => ?_
  dsimp only
  split <;> infer_instance

omit h in
instance {kind : Jump} : Behaves L i (jumpLabel kind) (jumpLabel kind) := by
  unfold jumpLabel
  split
  · infer_instance
  · refine .step fun t _ => ?_
    split <;> infer_instance

omit h in
omit h in
instance : Behaves L i emptyStmt emptyStmt := by
  unfold emptyStmt
  infer_instance

instance : Behaves L i (stmtHere given) (stmtHere inner) := by
  refine .step fun t _ => ?_
  split
  iterate 14 infer_instance
  · split <;> infer_instance

/-! ## Whole sources -/

instance : Behaves L i (Production.wholeExpr.reader given) (Production.wholeExpr.reader inner) := by
  unfold Production.reader
  dsimp only
  infer_instance

instance : Behaves L i (Production.wholeDecl.reader given) (Production.wholeDecl.reader inner) := by
  unfold Production.reader
  infer_instance

instance : Behaves L i (Production.wholeStmt.reader given) (Production.wholeStmt.reader inner) := by
  unfold Production.reader
  infer_instance

/-- At the levels of statements every production keeps the level. -/
theorem Production.atLevel (hnone : ¬ L.judged) {α : Type} (p : Production α) :
    AtLevel i (p.reader given) (p.reader inner) fun _ => True := by
  -- where nothing is judged, everything fits
  have hfit {α : Type} [Fitting α] (a : α) : Fit L i a := ⟨fun hj => absurd hj hnone⟩
  cases p with
  | arrayLength => exact (atLevel_arrayLength (L := L)).keeps
  | interfaceMethod => exact (atLevel_interfaceMethod (L := L)).keeps
  | interfaceMember => exact (atLevel_interfaceMember (L := L)).keeps
  | sliceBounds => exact (atLevel_sliceBounds (L := L)).keeps
  | elementValue => exact (atLevel_elementValue (L := L)).keeps
  | element => exact (atLevel_element (L := L)).keeps
  | literalValue t start => exact (atLevel_literalValue (L := L) t start).keeps
  | ifHeader => exact (atLevel_ifHeader (L := L)).keeps
  | rangeClause vars op =>
      exact (behaves_rangeClause given inner (hfit vars) _ fun hj => absurd hj hnone).atLevel.keeps
  | caseClause types => exact (atLevel_caseClause (L := L) types).keeps
  | commClause => exact (atLevel_commClause (L := L)).keeps
  | caseBlock types => exact (atLevel_clauseBlock (atLevel_caseClause (L := L) types)).keeps
  | commBlock => exact (atLevel_clauseBlock (atLevel_commClause (L := L))).keeps
  | wholeExpr | wholeDecl | wholeStmt => exact (inferInstance : Behaves L i _ _).atLevel.keeps
  | _ =>
      unfold reader
      exact (inferInstance : Behaves L i _ _).atLevel.keeps

end

/-! ## Levels on top of one another -/

instance : Inner.AtLevels L Inner.none Inner.none where
  binary _ := ⟨.of_fails fun _ _ => yields_failHere⟩
  unary := ⟨.of_fails fun _ _ => yields_failHere⟩
  type? := ⟨.of_fails fun _ _ => yields_failHere⟩
  literalValue _ := .of_fails fun _ _ => yields_failHere
  stmt := ⟨.of_fails fun _ _ => yields_failHere⟩
  ifStmt := .of_fails fun _ _ => yields_failHere

instance : Inner.AtLevels L (Inner.over given) (Inner.over inner) where
  binary _ := by unfold Inner.over; infer_instance
  unary := by unfold Inner.over; infer_instance
  type? := by unfold Inner.over; infer_instance
  literalValue start := atLevel_literalValue_none start
  stmt := by unfold Inner.over; infer_instance
  ifStmt := atLevel_ifStmt

instance inner_atLevels (n : Nat) : Inner.AtLevels L (Grammar.inner n) (Grammar.inner n) := by
  induction n with
  | zero => unfold Grammar.inner; infer_instance
  | succ n ih => unfold Grammar.inner; infer_instance

/-- Any level is one at which statements may be read, so long as nothing is exchanged. -/
def Levels.all (judged : Prop) : Levels :=
  ⟨fun _ => True, trivial, fun _ => trivial, judged⟩

instance {judged : Prop} : StmtLevel (Levels.all judged) i := ⟨trivial⟩

/-- What an accepted source is read into fits. -/
theorem fits_of_read {α : Type} [Fitting α] (p : Parser α) [h : Behaves (Levels.all True) 0 p p]
    {src : String} {f : Fragment α} (hf : Fragment.read p src = .ok f) : Fitting.Fits 0 f.root := by
  obtain ⟨c, -, hroot⟩ := (h.atLevel _ rfl).2.read hf
  exact hroot.fits trivial

end Grammar

end GoGloss
