import GoGloss.Proofs.NestingBound.Expressions

/-!
# What the nesting limit lets a source grow to

Declarations and statements say the expressions in them one after the other, so
they take as many calls as the deepest one. By induction on the levels the grammar
as a whole stays within the bounds, and `parsed_calls_le` is what they come to for
whole sources.
-/

namespace GoGloss.Grammar

section Productions

variable {inner : Inner} (hi : inner.CallsBounded)
include hi

/-! ## Declarations and statements -/

theorem initialValues_calls : CallsWithin (initialValues inner) Expr.callsAll exprCalls := by
  intro c s hs
  simp [initialValues]
  exact ⟨fun _ => exprList_calls hi c.advance s hs, fun _ => by simp [Expr.callsAll, hs]⟩

theorem constSpec_calls : CallsWithin (constSpec inner) Spec.calls exprCalls := by
  intro c s hs
  have := typeCalls_le_exprCalls s
  simp only [constSpec, yields_bind]
  refine yields_nameList_depth fun names c₁ hd => ?_
  simp only [yields_peek]
  split
  · simp [Spec.calls, Expr.callsOption, Expr.callsAll, hd, hs]
  · simp [Spec.calls, Expr.callsOption, Expr.callsAll, hd, hs]
  · simp [Spec.calls, Expr.callsOption, Expr.callsAll, hd, hs]
  · simp only [yields_bind, yields_pure]
    refine (type?_calls hi).yields (s := s) (by omega) fun t c₂ hs₂ ht => ?_
    refine (initialValues_calls hi).yields hs₂ fun values c₃ hs₃ hvalues => ?_
    refine ⟨hs₃, ?_⟩
    exact Nat.max_le.mpr ⟨by omega, hvalues⟩

theorem varSpec_calls : CallsWithin (varSpec inner) Spec.calls exprCalls := by
  intro c s hs
  have := typeCalls_le_exprCalls s
  simp [varSpec]
  refine yields_nameList_depth fun names c₁ hd => ⟨fun _ => ?_, fun _ => ?_⟩
  · refine (initialValues_calls hi).yields (s := s) (by omega) fun values c₂ hs₂ hvalues => ?_
    refine ⟨hs₂, ?_⟩
    exact Nat.max_le.mpr ⟨Nat.zero_le _, hvalues⟩
  · refine (type_calls hi).yields (s := s) (by omega) fun t c₂ hs₂ ht => ?_
    refine (initialValues_calls hi).yields hs₂ fun values c₃ hs₃ hvalues => ?_
    refine ⟨hs₃, ?_⟩
    exact Nat.max_le.mpr ⟨Nat.le_trans ht this, hvalues⟩

theorem typeSpec_calls : CallsWithin (typeSpec inner) Spec.calls exprCalls := by
  intro c s hs
  have := typeCalls_le_exprCalls s
  simp [typeSpec, Spec.calls]
  refine yields_name_depth fun n c₁ hd => ⟨fun _ => ?_, fun _ => ?_⟩
  · refine (type_calls hi).yields (s := s) (by simp; omega) fun t c₂ hs₂ ht => ?_
    exact ⟨hs₂, by omega⟩
  · refine (type_calls hi).yields (s := s) (by omega) fun t c₂ hs₂ ht => ?_
    exact ⟨hs₂, by omega⟩

omit hi in
theorem importSpec_calls : CallsWithin importSpec Spec.calls exprCalls := by
  intro c s hs
  have hname : Yields importName? c fun _ c' => c'.depth + s = maxDepth := by
    simp only [importName?, yields_bind, yields_peek]
    split
    · simpa using hs
    · simp [hs]
      exact fun _ => yields_name_depth fun _ _ hd => by omega
    · simpa using hs
  simp only [importSpec, yields_bind]
  refine hname.mono fun n c₁ hs₁ => yields_textLiteral?_depth fun path c₂ hd => ?_
  cases path with
  | none => simp
  | some path => simp [Spec.calls, hd, hs₁]

theorem spec_calls (word : DeclWord) : CallsWithin (spec inner word) Spec.calls exprCalls := by
  cases word with
  | import_ => exact importSpec_calls
  | const_ => exact constSpec_calls hi
  | var_ => exact varSpec_calls hi
  | type_ => exact typeSpec_calls hi

theorem groupDecl_calls : CallsWithin (groupDecl inner) Decl.calls exprCalls := by
  intro c s hs
  simp only [groupDecl, yields_bind, yields_here, yields_peek]
  split
  · simp
  · simp
    refine ⟨fun _ => ?_, fun _ => ?_⟩
    · refine ((spec_calls hi _).endedListUntil (c := c.advance.advance) hs).mono ?_
      rintro specs c₁ ⟨hs₁, hspecs⟩ _
      refine ⟨hs₁, ?_⟩
      exact le_of_forall_mem (g := Spec.callsAll) rfl (fun _ _ => rfl) hspecs
    · refine (spec_calls hi _).yields hs fun sp c₁ hs₁ hsp => ?_
      refine ⟨hs₁, ?_⟩
      simpa [Decl.calls, Spec.callsAll] using hsp

theorem funcDecl_calls : CallsWithin (funcDecl inner) Decl.calls paramCalls := by
  intro c s hs
  simp [funcDecl]
  refine fun _ => ⟨fun _ => ?_, fun _ => ?_⟩
  · -- a method, whose receiver is not said
    refine (parameters_calls hi).yields hs fun receiver c₁ hs₁ _ => ?_
    refine yields_name_depth fun n c₂ hd₂ => ?_
    refine (signature_calls hi).yields (s := s) (by omega) fun sig c₃ hs₃ hsig => ?_
    refine ⟨fun _ => ?_, fun _ => ⟨hs₃, hsig⟩⟩
    exact yields_block_depth fun body c₄ hd₄ => ⟨by simp_all, hsig⟩
  · refine yields_name_depth fun n c₁ hd₁ => ?_
    refine (signature_calls hi).yields (s := s) (by simp at hd₁; omega) fun sig c₂ hs₂ hsig => ?_
    refine ⟨fun _ => ?_, fun _ => ⟨hs₂, hsig⟩⟩
    exact yields_block_depth fun body c₃ hd₃ => ⟨by simp_all, hsig⟩

theorem afterExprs_calls {c : Cursor} {s start : Nat} (hs : c.depth + s = maxDepth) {lhs : List Expr}
    (hlhs : Expr.callsAll lhs ≤ exprCalls s) :
    Yields (afterExprs inner start lhs) c fun st _ => st.calls ≤ exprCalls s := by
  simp only [afterExprs, yields_bind, yields_peek]
  split
  · rename_i op _
    simp [assignment]
    refine (exprList_calls hi).yields hs fun rhs c₁ _ hrhs => ?_
    cases op <;> simp only [Stmt.calls] <;> omega
  · rw [yields_bind]
    unfold oneExpr
    split
    · rename_i x
      have hx : x.calls ≤ exprCalls s := by simpa [Expr.callsAll] using hlhs
      simp only [yields_pure, afterExpr, yields_bind, yields_peek]
      split
      · simp [Stmt.calls]
      · split
        · simp [Stmt.calls]
        · simpa [Stmt.calls] using hx
    · simp

theorem simpleOrLabeled_calls {c : Cursor} {s : Nat} (hs : c.depth + s = maxDepth) :
    Yields (simpleOrLabeled inner) c fun st _ => st.calls ≤ exprCalls s := by
  simp only [simpleOrLabeled, yields_bind, yields_here]
  refine (exprList_calls hi).yields hs fun lhs c₁ hs₁ hlhs => ?_
  simp only [yields_peek]
  split
  · simp [Stmt.calls]
  · exact afterExprs_calls hi hs₁ hlhs

/-! Control statements are not said in full yet, so no expression in them is. -/

omit hi in
theorem ifStmt_calls {c : Cursor} {n : Nat} :
    Yields (ifStmt inner) c fun st _ => st.calls ≤ n := by
  simp [ifStmt]
  refine fun _ => yields_true.mono fun header c₁ _ => yields_true.mono fun body c₂ _ => ?_
  refine ⟨fun _ => ?_, fun _ => by simp [Stmt.calls]⟩
  split <;> simp [Stmt.calls]

omit hi in
theorem forStmt_calls {c : Cursor} {n : Nat} :
    Yields (forStmt inner) c fun st _ => st.calls ≤ n := by
  simp [forStmt]
  refine fun _ => yields_true.mono fun header c₁ _ => yields_true.mono fun body c₂ _ => ?_
  cases header <;> simp [Stmt.calls]

omit hi in
theorem switchStmt_calls {c : Cursor} {n : Nat} :
    Yields (switchStmt inner) c fun st _ => st.calls ≤ n := by
  simp [switchStmt]
  refine fun _ => yields_true.mono fun header c₁ _ => yields_true.mono fun body c₂ _ => ?_
  split <;> simp [Stmt.calls]

omit hi in
theorem returnStmt_calls {c : Cursor} {n : Nat} :
    Yields (returnStmt inner) c fun st _ => st.calls ≤ n := by
  simp only [returnStmt, yields_bind, yields_here, yields_take, yields_peek]
  split <;> simp [Stmt.calls]

theorem stmtHere_calls {c : Cursor} {s : Nat} (hs : c.depth + s = maxDepth) :
    Yields (stmtHere inner) c fun st _ => st.calls ≤ exprCalls s := by
  simp only [stmtHere, yields_bind, yields_peek]
  split
  iterate 3 simp [emptyStmt, Stmt.calls]
  iterate 3
    simp [declStmt, Stmt.calls]
    exact (groupDecl_calls hi).le hs (Nat.le_refl _)
  · simp [goStmt, Stmt.calls]
  · simp [deferStmt, Stmt.calls]
  · exact returnStmt_calls
  · simp [blockStmt, Stmt.calls]
  · exact ifStmt_calls
  · exact forStmt_calls
  · exact switchStmt_calls
  · simp [selectStmt, Stmt.calls]
  · split
    · simp [jumpStmt, Stmt.calls]
    · simp
      exact fun _ => simpleOrLabeled_calls hi hs

end Productions

/-! ## All levels -/

theorem Inner.callsBounded_none : Inner.none.CallsBounded where
  binary _ _ _ _ := yields_failHere
  unary _ _ _ := yields_failHere
  type? _ _ _ := yields_failHere

theorem Inner.CallsBounded.over {deeper : Inner} (h : deeper.CallsBounded) :
    (Inner.over deeper).CallsBounded where
  binary := binary_calls h
  unary := unary_calls h
  type? := typeHere?_calls h

theorem inner_callsBounded (n : Nat) : (inner n).CallsBounded := by
  induction n with
  | zero => exact Inner.callsBounded_none
  | succ n ih => exact ih.over

/-! ## Whole sources -/

/-- The most calls that the nesting limit lets through. -/
theorem exprCalls_maxDepth : exprCalls maxDepth = 32900 := by
  rw [exprCalls_eq]
  decide +kernel

theorem wholeExpr_calls {c : Cursor} (hc : c.depth = 0) :
    Yields wholeExpr c fun x _ => x.calls ≤ 32900 := by
  rw [← exprCalls_maxDepth]
  simp [wholeExpr]
  refine (expr_calls (inner_callsBounded _) c maxDepth (by omega)).mono fun x c₁ ⟨_, hx⟩ => ?_
  exact ⟨fun _ _ => hx, fun _ _ => hx⟩

theorem wholeDecl_calls {c : Cursor} (hc : c.depth = 0) :
    Yields wholeDecl c fun d _ => d.calls ≤ 32900 := by
  have hparam : paramCalls maxDepth ≤ 32900 := by
    have := exprCalls_maxDepth
    rw [exprCalls_eq] at this
    simp only [paramCalls, maxDepth] at this ⊢
    omega
  have hdecl : Yields (decl (inner maxDepth)) c fun d _ => d.calls ≤ 32900 := by
    simp [decl]
    exact ⟨fun _ => (funcDecl_calls (inner_callsBounded _)).le (s := maxDepth) (by omega) hparam,
      fun _ => (groupDecl_calls (inner_callsBounded _)).le (s := maxDepth) (by omega)
        (Nat.le_of_eq exprCalls_maxDepth)⟩
  simp only [wholeDecl, yields_bind]
  refine hdecl.mono fun d c₁ hd => yields_true.mono fun _ c₂ _ => yields_true.mono fun _ c₃ _ => ?_
  simp [hd]

theorem wholeStmt_calls {c : Cursor} (hc : c.depth = 0) :
    Yields wholeStmt c fun s _ => s.calls ≤ 32900 := by
  have hle : exprCalls 255 ≤ 32900 := by
    have hsucc := exprCalls_succ 255
    rw [show 255 + 1 = maxDepth from rfl, exprCalls_maxDepth] at hsucc
    have := exprCalls_lt_operandCalls 255
    omega
  have hstmt : Yields (stmt (inner maxDepth)) c fun s _ => s.calls ≤ 32900 := by
    simp only [stmt, yields_nested]
    intro _
    -- The statement itself is on a level of its own.
    refine (stmtHere_calls (inner_callsBounded 255) (s := 255) ?_).mono fun s c₁ hs => by omega
    simp [hc, maxDepth]
  simp only [wholeStmt, yields_bind]
  refine hstmt.mono fun s c₁ hs => yields_true.mono fun _ c₂ _ => yields_true.mono fun _ c₃ _ => ?_
  simp [hs]

end GoGloss.Grammar

namespace GoGloss

open Grammar

/-- No accepted source takes more calls to be said. -/
theorem parsed_calls_le (src : String) :
    (∀ f, parseExpr src = .ok f → f.root.calls ≤ 32900) ∧
    (∀ f, parseDecl src = .ok f → f.root.calls ≤ 32900) ∧
    (∀ f, parseStmt src = .ok f → f.root.calls ≤ 32900) := by
  refine ⟨fun f hf => ?_, fun f hf => ?_, fun f hf => ?_⟩
  · obtain ⟨_, h⟩ := (wholeExpr_calls rfl).read hf
    exact h
  · obtain ⟨_, h⟩ := (wholeDecl_calls rfl).read hf
    exact h
  · obtain ⟨_, h⟩ := (wholeStmt_calls rfl).read hf
    exact h

end GoGloss
