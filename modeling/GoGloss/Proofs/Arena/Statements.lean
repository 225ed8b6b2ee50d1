import GoGloss.Flat.Fragment
import GoGloss.Proofs.Arena.Expressions

/-!
# Declarations and statements go together

The productions for declarations and statements, walked through side by side. In two
places the reader of arenas goes back on what it made. An identifier that turns out
to be a label was made as an expression, and a condition or tag as a statement; both
stay in the arena, and the name or the expression goes on from them.
-/

namespace GoGloss.Flat

open Grammar

/-! ## Looking up a statement -/

theorem Each.length_eq {α β : Type} {R : α → β → List Part → Prop} {as : List α} {bs : List β}
    {ps : List Part} (h : Each R as bs ps) : as.length = bs.length := by
  induction h with
  | nil => rfl
  | cons _ _ ih => rw [List.length_cons, List.length_cons, ih]

/-- A short variable declaration guards a type switch if it has one variable and one value. -/
theorem isTypeGuard_define (span opPos : Span) (xs ys : List Expr) :
    (Stmt.assign span xs .define opPos ys).isTypeGuard =
      match ys with
      | [y] => xs.length == 1 && y.isTypeGuard
      | _ => false := by
  rcases xs with _ | ⟨x, _ | ⟨x', xs⟩⟩ <;> rcases ys with _ | ⟨y, _ | ⟨y', ys⟩⟩ <;>
    simp [Stmt.isTypeGuard]

namespace Mirror

variable {ls : List Lexeme} {log : List Event} {w : Workbench} (h : Mirror ls log w)
include h

theorem isCall_eq {i : ExprId} {x : Expr} (hi : StandsFor log w i x) :
    isCall (replay log) i = x.isCall := by
  obtain ⟨n, ps, hn, hof, -⟩ := h.of_standsFor (h.unparen hi)
  rw [isCall, Expr.isCall, hn]
  generalize x.unparen = y at hof
  cases hof <;> rfl

theorem isTypeAssertion_eq {i : ExprId} {x : Expr} (hi : StandsFor log w i x) :
    isTypeAssertion (replay log) i = x.isTypeGuard := by
  obtain ⟨n, ps, hn, hof, -⟩ := h.of_standsFor hi
  rw [isTypeAssertion, hn]
  cases hof with
  | typeAssert ht => cases ht <;> rfl
  | _ => rfl

theorem isTypeGuard_eq {i : StmtId} {s : Stmt} (hi : StandsFor log w i s) :
    isTypeGuard (replay log) i = s.isTypeGuard := by
  obtain ⟨n, ps, hn, hof, hps⟩ := h.of_standsFor hi
  rw [isTypeGuard, hn]
  cases hof with
  | expr => exact h.isTypeAssertion_eq (hps _ List.mem_cons_self)
  | @assign r xs _ r' ys _ op _ _ hlhs hrhs =>
      obtain ⟨lhs, qs, hlhs, rfl⟩ := hlhs
      obtain ⟨rhs, rs, hrhs, rfl⟩ := hrhs
      have hr : GivenOut log r lhs := hps (.list r lhs) (by simp)
      have hr' : GivenOut log r' rhs := hps (.list r' rhs) (by simp)
      have hlength : r.len = xs.length := hr.length.trans hlhs.length_eq
      cases op with
      | define =>
          rw [isTypeGuard_define]
          simp only [hr'.items?, hlength]
          cases hrhs with
          | nil => rfl
          | @cons j y _ _ _ _ hy hys =>
              obtain rfl := hy
              have hj := h.isTypeAssertion_eq (i := j) (x := y) (hps (.node j y) (by simp))
              cases hys with
              | nil => simp only [hj]
              | cons _ _ => rfl
      | _ => simp [Stmt.isTypeGuard]
  | _ => rfl

end Mirror

section Productions

variable {u : Inner} {v : Grammar.Inner} (h : Twins u v)

/-! ## Declarations -/

theorem twin_importIdent? :
    Twin [] importIdent? Grammar.importName? (Maybe ImportNameOf) := by
  refine twin_peek.same fun t => ?_
  split
  · exact twin_take.same fun pos => twin_pure (.some .dot)
  · refine .ite (twin_take.same fun pos => twin_pure (.some .blank)) (twin_ident.after ?_)
    rintro n m _ ⟨-, rfl⟩
    exact twin_pure (.some .name)
  · exact (twin_pure .none).reads (by simp only)

theorem twin_importSpec : Twin [] importSpec Grammar.importSpec SpecOf := by
  refine twin_importIdent?.after fun o t ps hname => twin_textLiteral?.after ?_
  rintro path _ _ ⟨rfl, rfl⟩
  cases path with
  | none => exact twin_failExpected
  | some path => exact twin_pure (.importing hname)

theorem twin_valueSpec {ns : List Ident} {names : List Name} {o : Option ExprId} {t : Option Expr}
    {is : List ExprId} {xs : List Expr} {ps qs rs : List Part} (hnames : Each Named ns names ps)
    (ht : Maybe One o t qs) (hxs : Each One is xs rs) :
    Twin (ps ++ qs ++ rs) (valueSpec ns o is) (pure (.value names t xs)) SpecOf := by
  refine Twin.of_eq (twin_shelve (F := []) (G := qs ++ rs) hnames Named.fits fun r ps' hr => ?_)
    (by simp)
  refine Twin.of_eq (twin_shelve_last (F := ps' ++ qs) hxs One.fits fun r' rs' hr' => ?_)
    (by simp)
  exact twin_pure (.value hr ht hr')

include h

theorem twin_initialValues : Twin [] (initialValues u) (Grammar.initialValues v) (Each One) :=
  (twin_eats _).same fun _ => .ite (twin_exprList h) (twin_pure .nil)

theorem twin_constSpec : Twin [] (constSpec u) (Grammar.constSpec v) SpecOf := by
  refine twin_identList.after fun ns names ps hnames => twin_peek.same fun t => ?_
  have hbare : Twin ps (valueSpec ns none []) (pure (.value names none [])) SpecOf :=
    (twin_valueSpec hnames .none .nil).of_eq (by simp)
  split
  · exact hbare
  · exact hbare
  · exact hbare
  · exact ((twin_type? h).after fun o t qs ht => (twin_initialValues h).after fun is xs rs hxs =>
      twin_valueSpec hnames ht hxs).reads (by simp only)

theorem twin_varSpec : Twin [] (varSpec u) (Grammar.varSpec v) SpecOf := by
  refine twin_identList.after fun ns names ps hnames => (twin_isAt _).same fun _ => ?_
  refine Twin.join (twin_pure .none) (twin_type h).some fun o t qs ht => ?_
  exact (twin_initialValues h).after fun is xs rs hxs => twin_valueSpec hnames ht hxs

theorem twin_typeSpec : Twin [] (typeSpec u) (Grammar.typeSpec v) SpecOf := by
  refine twin_ident.after ?_
  rintro n m _ ⟨-, rfl⟩
  exact (twin_eat _).same fun assign => (twin_type h).node fun i t => twin_pure .type

theorem twin_spec (word : DeclWord) : Twin [] (spec u word) (Grammar.spec v word) SpecOf := by
  cases word with
  | import_ => exact twin_importSpec
  | const_ => exact twin_constSpec h
  | var_ => exact twin_varSpec h
  | type_ => exact twin_typeSpec h

theorem twin_groupDecl : Twin [] (groupDecl u) (Grammar.groupDecl v) One := by
  refine twin_here.same fun start => twin_peek.same fun t => ?_
  cases DeclWord.ofToken? t with
  | none => exact twin_failExpected
  | some word =>
      refine twin_take.same fun wordPos => (twin_eat _).same fun lparen => ?_
      cases lparen with
      | none =>
          refine (twin_spec h word).after fun n spec ps hspec => ?_
          refine twin_shelve_last (Each.single hspec) SpecOf.fits fun r qs hr => ?_
          exact (twin_spanFrom _).same fun span => twin_makeDecl (.group hr)
      | some lparen =>
          refine (twin_spec h word).endedListUntil.after fun ns specs ps hspecs => ?_
          refine (twin_expect _).same fun rparen => ?_
          refine twin_shelve_last hspecs SpecOf.fits fun r qs hr => ?_
          exact (twin_spanFrom _).same fun span => twin_makeDecl (.group hr)

theorem twin_funcDecl : Twin [] (funcDecl u) (Grammar.funcDecl v) One := by
  refine twin_here.same fun start => (twin_expect _).same fun func => ?_
  refine (twin_isAt _).same fun _ => ?_
  refine Twin.join (twin_parameters h).some (twin_pure .none) fun o t ps hreceiver => ?_
  refine twin_ident.after ?_
  rintro n m _ ⟨-, rfl⟩
  refine (twin_signature h).after fun _ _ _ hsig => ?_
  obtain ⟨hparams, hresults⟩ := hsig
  refine (twin_spanFrom _).same fun span => ?_
  refine (twin_makeExpr (.funcType hparams hresults)).made fun i x => ?_
  refine (twin_isAt _).same fun _ => ?_
  refine Twin.join (twin_block h).some (twin_pure .none) fun b body qs hb => ?_
  exact (twin_spanFrom _).same fun span => twin_makeDecl (.func hreceiver hb)

theorem twin_decl : Twin [] (decl u) (Grammar.decl v) One :=
  (twin_isAt _).same fun _ => .ite (twin_funcDecl h) (twin_groupDecl h)

/-! ## Simple statements -/

theorem twin_assignment (start : Nat) {is : List ExprId} {xs : List Expr} {ps : List Part}
    (hxs : Each One is xs ps) (op : AssignOp) :
    Twin ps (assignment u start is op) (Grammar.assignment v start xs op) One := by
  refine twin_take.same fun opPos => (twin_exprList h).after fun js ys qs hys => ?_
  refine twin_shelve (F := []) hxs One.fits fun r ps' hr => ?_
  refine twin_shelve_last (F := ps') hys One.fits fun r' qs' hr' => ?_
  exact (twin_spanFrom _).same fun span => twin_makeStmt (.assign hr hr')

theorem twin_afterExpr (start : Nat) (i : ExprId) (x : Expr) :
    Twin [.node i x] (afterExpr u start i) (Grammar.afterExpr v start x) One := by
  refine twin_peek.same fun t => ?_
  split
  · refine twin_take.same fun opPos => (twin_expr h).node fun j y => ?_
    exact (twin_spanFrom _).same fun span => twin_makeStmt .send
  · rcases Option.eq_none_or_eq_some (StepOp.ofToken? t) with hop | ⟨op, hop⟩
    · simp only [hop]
      exact (twin_spanFrom _).same fun span => twin_makeStmt .expr
    · simp only [hop]
      exact twin_take.same fun opPos => (twin_spanFrom _).same fun span => twin_makeStmt .step

omit h in
theorem twin_oneExpr {is : List ExprId} {xs : List Expr} {ps : List Part}
    (hxs : Each One is xs ps) : Twin ps (oneExpr is) (Grammar.oneExpr xs) One := by
  cases hxs with
  | nil => exact twin_arena fun ls c log H hmatch => ⟨[], hmatch, twin_failAt⟩
  | @cons i x is xs qs _ hx hxs =>
      obtain rfl := hx
      cases hxs with
      | nil => exact twin_pure rfl
      | cons hy hys =>
          refine twin_arena fun ls c log H hmatch => ⟨_, hmatch, ?_⟩
          have hspan : (replay log).span i = x.span := hmatch.span_eq (by simp)
          change Twin _ (failAt ((replay log).span i) _) (failAt x.span _) One
          rw [hspan]
          exact twin_failAt

theorem twin_afterExprs (start : Nat) {is : List ExprId} {xs : List Expr} {ps : List Part}
    (hxs : Each One is xs ps) :
    Twin ps (afterExprs u start is) (Grammar.afterExprs v start xs) One := by
  refine twin_peek.same fun t => ?_
  cases AssignOp.ofToken? t with
  | none =>
      exact (twin_oneExpr hxs).made (F := []) fun i x => twin_afterExpr h start i x
  | some op => exact twin_assignment h start hxs op

theorem twin_simpleStmt : Twin [] (simpleStmt u) (Grammar.simpleStmt v) One :=
  twin_here.same fun start => (twin_exprList h).after fun _ _ _ hxs => twin_afterExprs h start hxs

omit h in
/-- An identifier in hand may go on as a label. -/
theorem Match.label {ls : List Lexeme} {c : Cursor} {log : List Event} {H : List Part}
    {i : ExprId} {m : Name} (hmatch : Match ls c log (H ++ [.node i (.ident m)])) :
    ∃ n, (replay log).node? i = some (.ident n) ∧ Match ls c log (H ++ [.label i n m]) := by
  have hi : StandsFor log c.bench i (.ident m) := hmatch.parts (.node i (.ident m)) (by simp)
  obtain ⟨_, ps, hn, hof, hps⟩ := hmatch.mirror.of_standsFor hi
  cases hof with
  | @ident n =>
      refine ⟨n, hn, hmatch.exchange ?_ ?_⟩
      · refine List.forall_mem_append.mpr ⟨(List.forall_mem_append.mp hmatch.parts).1, ?_⟩
        exact List.forall_mem_singleton.mpr ⟨hn, hps (.ident n m) List.mem_cons_self⟩
      · simp [Part.held, Part.dropped, Part.taken]

omit h in
/-- Only an identifier can be a label. -/
theorem Match.label?_eq {ls : List Lexeme} {c : Cursor} {log : List Event} {H ps : List Part}
    {is : List ExprId} {xs : List Expr} (hmatch : Match ls c log (H ++ ps))
    (hxs : Each One is xs ps) (hno : ∀ m, xs ≠ [.ident m]) : label? (replay log) is = none := by
  cases hxs with
  | nil => rfl
  | @cons i x _ _ _ _ hx hxs =>
      cases hxs with
      | cons _ _ => rfl
      | nil =>
          obtain rfl := hx
          have hi : StandsFor log c.bench i x := hmatch.parts (.node i x) (by simp)
          obtain ⟨_, _, hn, hof, -⟩ := hmatch.mirror.of_standsFor hi
          rw [label?, hn]
          cases hof with
          | ident => exact absurd rfl (hno _)
          | _ => rfl

theorem twin_simpleOrLabeled : Twin [] (simpleOrLabeled u) (Grammar.simpleOrLabeled v) One := by
  refine twin_here.same fun start => (twin_exprList h).after fun is xs ps hxs => ?_
  refine twin_arena_peek fun ls c log H hmatch t => ?_
  by_cases hlabel : ∃ m, xs = [.ident m]
  · -- The identifier is a label only if a colon follows; else it is read on as it is.
    obtain ⟨m, rfl⟩ := hlabel
    cases hxs with | @cons i _ _ _ _ _ hx hxs => ?_
    cases hxs
    obtain rfl := hx
    obtain ⟨n, hn, hlabeled⟩ := Match.label (by simpa using hmatch)
    have hlabel : label? (replay log) [i] = some n := by rw [label?, hn]
    rw [hlabel]
    by_cases ht : t = .mark .colon
    · subst ht
      refine ⟨[.label i n m], hlabeled, twin_take.discard.same fun _ => ?_⟩
      refine (twin_stmt h).node fun j s => ?_
      exact (twin_spanFrom _).same fun span => twin_makeStmt .labeled
    · refine ⟨_, hmatch, ?_⟩
      split
      · exact absurd rfl ht
      · split
        · exact absurd rfl ht
        · exact twin_afterExprs h start (Each.single rfl)
  · rw [hmatch.label?_eq hxs fun m hm => hlabel ⟨m, hm⟩]
    refine ⟨_, hmatch, ?_⟩
    simp only
    split
    · exact absurd ⟨_, rfl⟩ hlabel
    · exact twin_afterExprs h start hxs

/-! ## Headers -/

omit h in
/-- The expression of a statement in hand may go on as a header. -/
theorem twin_headerExpr (part : HeaderPart) (i : StmtId) (s : Stmt) :
    Twin [.node i s] (headerExpr part i) (Grammar.headerExpr part s) Headed := by
  refine twin_arena fun ls c log H hmatch => ?_
  have hi : StandsFor log c.bench i s := hmatch.parts (.node i s) (by simp)
  have hspan : (replay log).span i = s.span := hmatch.mirror.span_eq hi
  obtain ⟨n, ps, hn, hof, hps⟩ := hmatch.mirror.of_standsFor hi
  rw [hn, hspan]
  cases hof with
  | @expr j span x =>
      refine ⟨[.header i j x], hmatch.exchange ?_ ?_, twin_pure ⟨i, rfl⟩⟩
      · refine List.forall_mem_append.mpr ⟨(List.forall_mem_append.mp hmatch.parts).1, ?_⟩
        exact List.forall_mem_singleton.mpr ⟨hn, hps (.node j x) List.mem_cons_self⟩
      · simp [Part.held, Part.dropped, Part.taken]
  | _ => exact ⟨_, hmatch, twin_failAt⟩

theorem twin_ifHeader :
    Twin [] (ifHeader u) (Grammar.ifHeader v) (Pair (Maybe One) Headed) := by
  refine (twin_isAt _).same fun _ => .ite twin_failHere ?_
  have hparts : Twin [] (Body.ifParts (simpleStmt u)) (Body.ifParts (Grammar.simpleStmt v))
      (Pair (Maybe One) (Maybe One)) := by
    refine (twin_isAt _).same fun _ => ?_
    refine Twin.join (twin_pure .none) (twin_simpleStmt h).some fun o s ps hinit => ?_
    refine (twin_eats _).same fun _ => .ite ?_ (twin_pure (.mk .none hinit))
    refine (twin_isAt _).same fun _ => .ite twin_failHere ?_
    exact (twin_simpleStmt h).node fun i s => twin_pure (.mk hinit (.some rfl))
  refine hparts.inHeader.after fun _ _ _ hheader => ?_
  obtain ⟨hinit, hcond⟩ := hheader
  cases hcond with
  | none => exact twin_failHere
  | some hcond =>
      obtain rfl := hcond
      exact (twin_headerExpr _ _ _).bind fun i x qs hx => twin_pure (.mk hinit hx)

theorem twin_ifStmt : Twin [] (ifStmt u) (Grammar.ifStmt v) One := by
  refine twin_here.same fun start => (twin_expect _).discard.same fun _ => ?_
  refine (twin_ifHeader h).after fun _ _ _ hheader => ?_
  obtain @⟨o, s, i, x, ps, qs, hinit, hcond⟩ := hheader
  refine (twin_block h).after fun b body rs hb => (twin_eats _).same fun _ => ?_
  have hmake : ∀ (o' : Option StmtId) (s' : Option Stmt) (rs' : List Part), Maybe One o' s' rs' →
      Twin ([] ++ (ps ++ qs) ++ rs ++ rs')
        (do allocStmt (.ifElse o i b o') (← spanFrom start))
        (do makeStmt (.ifElse (← spanFrom start) s x body s')) One := by
    intro o' s' rs' hother
    exact (twin_spanFrom _).same fun span => twin_makeStmt (.ifElse hinit hcond hb hother)
  refine .ite (twin_peek.same fun t => ?_) ((twin_pure .none).after hmake)
  split
  · exact h.ifStmt.nested.some.after hmake
  · refine twin_here.same fun elseStart => (twin_block h).after fun b' body' qs' hb' => ?_
    refine (twin_spanFrom _).same fun span => ?_
    exact (twin_makeStmt (.block hb')).some.bind hmake
  · exact (twin_failExpected.after hmake).reads (by simp only)

/-- What the headers of two loops say. -/
inductive ForHeaderOf : ForHeader ExprId StmtId → ForHeader Expr Stmt → List Part → Prop where
  | range (hkey : Maybe One o t ps) (hvalue : Maybe One o' t' qs) :
    ForHeaderOf (.range o o' op i) (.range t t' op x) (ps ++ qs ++ [.node i x])
  | clauses (hinit : Maybe One w s ps) (hcond : Maybe One w' s' qs) (hpost : Maybe One w'' s'' rs) :
    ForHeaderOf (.clauses w w' w'') (.clauses s s' s'') (ps ++ qs ++ rs)

/-- A statement, or the whole header of a loop. -/
inductive ForStartOf :
    StmtId ⊕ ForHeader ExprId StmtId → Stmt ⊕ ForHeader Expr Stmt → List Part → Prop where
  | stmt : ForStartOf (.inl i) (.inl s) [.node i s]
  | header (hheader : ForHeaderOf a b ps) : ForStartOf (.inr a) (.inr b) ps

theorem twin_rangeClause {is : List ExprId} {xs : List Expr} {ps : List Part}
    (hxs : Each One is xs ps) (op : AssignOp) :
    Twin ps (rangeClause u is op) (Grammar.rangeClause v xs op) ForHeaderOf := by
  obtain _ | ⟨hx, _ | ⟨hy, _ | @⟨k, z, _, _, _, _, hz, hxs⟩⟩⟩ := hxs
  · exact (twin_expr h).node fun i x => twin_pure (.range .none .none)
  · exact (twin_expr h).node fun i x => twin_pure (.range (.some hx) .none)
  · exact ((twin_expr h).node fun i x => twin_pure (.range (.some hx) (.some hy))).of_eq (by simp)
  · refine twin_arena fun ls c log H hmatch => ⟨_, hmatch, ?_⟩
    obtain rfl := hz
    have hspan : (replay log).span k = z.span := hmatch.span_eq (by simp)
    rw [hspan]
    exact twin_failAt

theorem twin_forStart : Twin [] (forStart u) (Grammar.forStart v) ForStartOf := by
  refine twin_here.same fun start => (twin_exprList h).after fun is xs ps hxs => ?_
  refine twin_peek.same fun t => ?_
  cases AssignOp.ofToken? t with
  | none =>
      refine Twin.map (R := One) ?_ fun i s qs (hs : qs = [.node i s]) => hs ▸ .stmt
      exact (twin_oneExpr hxs).made (F := []) fun i x => twin_afterExpr h start i x
  | some op =>
      refine twin_take.same fun opPos => (twin_isAt _).same fun _ => .ite ?_ ?_
      · refine twin_take.discard.same fun _ => ?_
        exact (twin_rangeClause h hxs op).map fun _ _ _ hheader => .header hheader
      · refine (twin_exprList h).after fun js ys qs hys => ?_
        refine twin_shelve (F := []) hxs One.fits fun r ps' hr => ?_
        refine twin_shelve_last (F := ps') hys One.fits fun r' qs' hr' => ?_
        refine (twin_spanFrom _).same fun span => ?_
        exact (twin_makeStmt (.assign hr hr')).map fun i s qs (hs : qs = [.node i s]) => hs ▸ .stmt

theorem twin_forClauses {o : Option StmtId} {s : Option Stmt} {ps : List Part}
    (hfirst : Maybe One o s ps) :
    Twin ps (forClauses u o) (Grammar.forClauses v s) ForHeaderOf := by
  refine (twin_eats _).same fun _ => .ite ?_ ((twin_pure (.clauses .none hfirst .none)).of_eq ?_)
  · refine (twin_isAt _).same fun _ => ?_
    refine Twin.join (twin_pure .none) (twin_simpleStmt h).some fun o' s' qs hcond => ?_
    refine twin_expectEnd.same fun _ => (twin_isAt _).same fun _ => ?_
    refine Twin.join (twin_pure .none) (twin_simpleStmt h).some fun o'' s'' rs hpost => ?_
    exact twin_pure (.clauses hfirst hcond hpost)
  · simp

theorem twin_forHeader : Twin [] (forHeader u) (Grammar.forHeader v) ForHeaderOf := by
  refine twin_peek.same fun t => ?_
  split
  · exact twin_pure (.clauses .none .none .none)
  · exact twin_forClauses h .none
  · refine twin_take.discard.same fun _ => (twin_expr h).node fun i x => ?_
    exact twin_pure (.range .none .none)
  · refine (twin_forStart h).after fun a b ps hstart => ?_
    cases hstart with
    | stmt => exact twin_forClauses h (.some rfl)
    | header hheader => exact twin_pure hheader

omit h in
/-- The check takes nothing away from what is in hand. -/
theorem twin_checkPost {o : Option StmtId} {s : Option Stmt} {ps : List Part}
    (hpost : Maybe One o s ps) :
    Twin ps (checkPost o) (Grammar.checkPost s) fun _ _ qs => qs = ps := by
  cases hpost with
  | none => exact twin_pure rfl
  | @some i s _ hs =>
      obtain rfl := hs
      refine twin_arena fun ls c log H hmatch => ⟨_, hmatch, ?_⟩
      have hi : StandsFor log c.bench i s := hmatch.parts (.node i s) (by simp)
      have hspan : (replay log).span i = s.span := hmatch.mirror.span_eq hi
      obtain ⟨n, ps, hn, hof, -⟩ := hmatch.mirror.of_standsFor hi
      rw [hn, hspan]
      cases hof with
      | @assign _ _ _ _ _ _ op =>
          cases op with
          | define => exact twin_failAt
          | _ => exact twin_pure rfl
      | _ => exact twin_pure rfl

omit h in
theorem twin_loopCondition {o : Option StmtId} {s : Option Stmt} {ps : List Part}
    (hcond : Maybe One o s ps) :
    Twin ps (loopCondition o) (Grammar.loopCondition s) (Maybe Headed) := by
  cases hcond with
  | none => exact twin_pure .none
  | some hs =>
      obtain rfl := hs
      exact (twin_headerExpr _ _ _).some

theorem twin_forStmt : Twin [] (forStmt u) (Grammar.forStmt v) One := by
  refine twin_here.same fun start => (twin_expect _).discard.same fun _ => ?_
  refine (twin_forHeader h).inHeader.after fun _ _ _ hheader => ?_
  refine (twin_block h).after fun b body rs hb => ?_
  cases hheader with
  | range hkey hvalue =>
      exact (twin_spanFrom _).same fun span => twin_makeStmt (.range hkey hvalue hb)
  | @clauses _ _ ps _ _ qs _ _ ps' hinit hcond hpost =>
      -- The condition is taken out from between the other two only when the body is read.
      refine (twin_checkPost hpost).within (F := ps ++ qs) (G := rs) fun _ _ _ hkept => ?_
      rw [hkept]
      refine Twin.of_eq ((twin_loopCondition hcond).within (F := ps) (G := ps' ++ rs)
        fun o t qs' ho => ?_) (by simp)
      refine (twin_spanFrom _).same fun span => ?_
      exact (twin_makeStmt (.loop hinit ho hpost hb)).of_eq (by simp)

/-! ## Switches -/

theorem twin_switchHeader :
    Twin [] (switchHeader u) (Grammar.switchHeader v) (Pair (Maybe One) (Maybe One)) := by
  refine (twin_isAt _).same fun _ => .ite (twin_pure (Pair.mk Maybe.none Maybe.none)) ?_
  refine (twin_isAt _).same fun _ => ?_
  refine Twin.join (twin_pure .none) (twin_simpleStmt h).some fun o s ps hfirst => ?_
  refine (twin_eats _).same fun _ => .ite ?_ (twin_pure (.mk .none hfirst))
  refine (twin_isAt _).same fun _ => .ite ((twin_pure (.mk hfirst .none)).of_eq (by simp)) ?_
  exact (twin_simpleStmt h).node fun i s => twin_pure (.mk hfirst (.some rfl))

theorem twin_caseClause (types : Bool) :
    Twin [] (caseClause u types) (Grammar.caseClause v types) One := by
  refine twin_here.same fun start => (twin_eats _).same fun _ => ?_
  have hmake : ∀ (is : List ExprId) (xs : List Expr) (ps : List Part), Each One is xs ps →
      Twin ([] ++ ps)
        (do
          discard <| expect (.mark .colon)
          let body ← stmtList u
          let cases ← shelveExprs is
          allocStmt (.caseClause cases body) (← spanFrom start))
        (Body.clauseBody (Grammar.stmtList v) (.caseClause · xs ·) start) One := by
    intro is xs ps hxs
    refine (twin_expect _).discard.same fun _ => (twin_stmtList h).after fun sr ss qs hss => ?_
    refine twin_shelve (F := []) hxs One.fits fun r ps' hr => ?_
    exact (twin_spanFrom _).same fun span => twin_makeStmt (.caseClause hr hss)
  refine .ite (.ite ?_ ?_) ?_
  · exact (twin_type h).commaList.after hmake
  · exact (twin_exprList h).after hmake
  · exact (twin_expect _).discard.same fun _ => (twin_pure .nil).after hmake

theorem twin_commClause : Twin [] (commClause u) (Grammar.commClause v) One := by
  refine twin_here.same fun start => (twin_eats _).same fun _ => ?_
  have hmake : ∀ (o : Option StmtId) (s : Option Stmt) (ps : List Part), Maybe One o s ps →
      Twin ([] ++ ps)
        (do
          discard <| expect (.mark .colon)
          let body ← stmtList u
          allocStmt (.commClause o body) (← spanFrom start))
        (Body.clauseBody (Grammar.stmtList v) (.commClause · s ·) start) One := by
    intro o s ps hcomm
    refine (twin_expect _).discard.same fun _ => (twin_stmtList h).after fun sr ss qs hss => ?_
    exact (twin_spanFrom _).same fun span => twin_makeStmt (.commClause hcomm hss)
  refine .ite ((twin_simpleStmt h).some.after hmake) ?_
  exact (twin_expect _).discard.same fun _ => (twin_pure .none).after hmake

omit h in
theorem twin_clauseBlock {clause : Builder StmtId} {clause' : Parser Stmt}
    (hclause : Twin [] clause clause' One) :
    Twin [] (clauseBlock clause) (Grammar.clauseBlock clause') BlockOf := by
  refine (twin_expect _).same fun lbrace => ?_
  refine Twin.after (R := Each One) ?_ fun is ss ps hss => (twin_expect _).same fun rbrace => ?_
  · refine Twin.collect (twin_peek.same fun t => ?_)
    split
    · exact hclause.after fun _ _ _ hs => twin_pure (.more hs)
    · exact hclause.after fun _ _ _ hs => twin_pure (.more hs)
    · exact twin_pure .done
  · exact twin_shelve_last (F := []) hss One.fits fun r qs hr => twin_pure (.mk hr)

theorem twin_switchStmt : Twin [] (switchStmt u) (Grammar.switchStmt v) One := by
  refine twin_here.same fun start => (twin_expect _).discard.same fun _ => ?_
  refine (twin_switchHeader h).inHeader.after fun _ _ _ hheader => ?_
  obtain @⟨o, s, o', s', ps, qs, hinit, htag⟩ := hheader
  refine twin_arena fun ls c log H hmatch => ⟨_, hmatch, ?_⟩
  cases htag with
  | none =>
      refine (twin_clauseBlock (twin_caseClause h _)).after fun b body rs hb => ?_
      exact (twin_spanFrom _).same fun span => twin_makeStmt (.switch hinit .none hb)
  | @some i s' _ hs =>
      obtain rfl := hs
      have hguard : isTypeGuard (replay log) i = s'.isTypeGuard :=
        hmatch.mirror.isTypeGuard_eq (hmatch.parts (.node i s') (by simp))
      -- A guard goes into the node as the statement it is, a tag as a header.
      simp only [Option.any_some, hguard]
      refine (twin_clauseBlock (twin_caseClause h _)).after fun b body rs hb => .ite ?_ ?_
      · exact (twin_spanFrom _).same fun span => twin_makeStmt (.typeSwitch hinit hb)
      · refine (twin_headerExpr _ i s').within (F := ps) (G := rs) fun j x qs hx => ?_
        exact (twin_spanFrom _).same fun span => twin_makeStmt (.switch hinit (.some hx) hb)

theorem twin_selectStmt : Twin [] (selectStmt u) (Grammar.selectStmt v) One := by
  refine twin_here.same fun start => twin_take.discard.same fun _ => ?_
  refine (twin_clauseBlock (twin_commClause h)).after fun b body ps hb => ?_
  exact (twin_spanFrom _).same fun span => twin_makeStmt (.select hb)

/-! ## All statements -/

theorem twin_callAfter (word : Keyword) :
    Twin [] (callAfter u word) (Grammar.callAfter v word) One := by
  refine (twin_expr h).node fun i x => ?_
  refine twin_arena fun ls c log H hmatch => ⟨_, hmatch, ?_⟩
  have hcall : isCall (replay log) i = x.isCall :=
    hmatch.mirror.isCall_eq (hmatch.parts (.node i x) (by simp))
  have hspan : (replay log).span i = x.span := hmatch.span_eq (by simp)
  rw [hcall, hspan]
  exact .ite (twin_pure rfl) twin_failAt

theorem twin_goStmt : Twin [] (goStmt u) (Grammar.goStmt v) One := by
  refine twin_here.same fun start => twin_take.same fun pos => ?_
  refine (twin_callAfter h _).node fun i x => ?_
  exact (twin_spanFrom _).same fun span => twin_makeStmt .go

theorem twin_deferStmt : Twin [] (deferStmt u) (Grammar.deferStmt v) One := by
  refine twin_here.same fun start => twin_take.same fun pos => ?_
  refine (twin_callAfter h _).node fun i x => ?_
  exact (twin_spanFrom _).same fun span => twin_makeStmt .defer

theorem twin_returnStmt : Twin [] (returnStmt u) (Grammar.returnStmt v) One := by
  refine twin_here.same fun start => twin_take.same fun pos => twin_peek.same fun t => ?_
  have hmake : ∀ (r : ListRef .exprs) (xs : List Expr) (ps : List Part), Listed One r xs ps →
      Twin ([] ++ ps)
        (do allocStmt (.ret pos r) (← spanFrom start))
        (do makeStmt (.ret (← spanFrom start) pos xs)) One := by
    intro r xs ps hr
    exact (twin_spanFrom _).same fun span => twin_makeStmt (.ret hr)
  have hbare := (hmake _ _ _ listed_empty).empty (F := []) (G := [])
  split
  · exact hbare
  · exact hbare
  · exact hbare
  · exact ((twin_exprList h).after fun is xs ps hxs => twin_shelve_last (F := []) hxs One.fits
      fun r qs hr => hmake r xs qs hr).reads (by simp only)

omit h in
theorem twin_jumpLabel (kind : Jump) :
    Twin [] (jumpLabel kind) (Grammar.jumpLabel kind) (Maybe Named) := by
  cases kind with
  | fallthrough_ => exact twin_pure .none
  | _ =>
      refine twin_peek.same fun t => ?_
      split
      · exact twin_ident.some
      · exact (twin_pure .none).reads (by simp only)

omit h in
theorem twin_jumpStmt (kind : Jump) : Twin [] (jumpStmt kind) (Grammar.jumpStmt kind) One := by
  refine twin_here.same fun start => twin_take.discard.same fun _ => ?_
  refine (twin_jumpLabel kind).after fun o m ps hlabel => ?_
  exact (twin_spanFrom _).same fun span => twin_makeStmt (.jump hlabel)

omit h in
theorem twin_emptyStmt : Twin [] emptyStmt Grammar.emptyStmt One :=
  twin_here.same fun _ => twin_makeStmt .empty

theorem twin_blockStmt : Twin [] (blockStmt u) (Grammar.blockStmt v) One := by
  refine twin_here.same fun start => (twin_block h).after fun b body ps hb => ?_
  exact (twin_spanFrom _).same fun span => twin_makeStmt (.block hb)

theorem twin_declStmt : Twin [] (declStmt u) (Grammar.declStmt v) One := by
  refine twin_here.same fun start => (twin_groupDecl h).node fun d e => ?_
  exact (twin_spanFrom _).same fun span => twin_makeStmt .decl

theorem twin_stmtHere : Twin [] (stmtHere u) (Grammar.stmtHere v) One := by
  refine twin_peek.same fun t => ?_
  split
  · exact twin_emptyStmt
  · exact twin_emptyStmt
  · exact twin_emptyStmt
  · exact twin_declStmt h
  · exact twin_declStmt h
  · exact twin_declStmt h
  · exact twin_goStmt h
  · exact twin_deferStmt h
  · exact twin_returnStmt h
  · exact twin_blockStmt h
  · exact twin_ifStmt h
  · exact twin_forStmt h
  · exact twin_switchStmt h
  · exact twin_selectStmt h
  · split
    · exact twin_jumpStmt _
    · exact .ite twin_failExpected (twin_simpleOrLabeled h)

end Productions

end GoGloss.Flat
