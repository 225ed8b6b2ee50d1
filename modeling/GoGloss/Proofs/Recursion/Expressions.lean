import GoGloss.Proofs.Recursion.Types

/-!
# Expressions within the budget

The productions for blocks and expressions do the same when they are watched. A
statement may be empty and take nothing; then it stands before a semicolon, which
ends it and is taken.
-/

namespace GoGloss.Grammar.Production

variable {α : Type} {ls : List Lexeme} {b n r : Nat}
  {call : ∀ {α : Type}, Production α → Parser α}

/-! ## Blocks -/

/-- Where nothing was taken, the token ahead is still there. -/
theorem head_eq_of_length_le {c c' : Cursor} (hrest : c'.rest <:+ c.rest)
    (hlength : c.rest.length ≤ c'.rest.length) (heof : c.head.token ≠ .eof) :
    c'.head = c.head := by
  have hsame : c'.rest = c.rest := hrest.eq_of_length (Nat.le_antisymm hrest.length_le hlength)
  unfold Cursor.head at heof ⊢
  rw [hsame]
  cases hc : c.rest with
  | nil => simp [hc] at heof
  | cons l rest => rfl

theorem tracksAt_expectEnd {c : Cursor} (hc : c.head.token = .mark .semicolon) :
    TracksAt ls b n r always c expectEnd expectEnd := by
  refine tracksAt_peek_bind ?_
  rw [hc]
  exact tracksAt_discard_take.mono fun _ _ => by simp [hc]

section Productions

variable (h : Follows ls b call)
include h

theorem stmtList_kept : stmtList.Kept ls b n call := by
  refine Tracks.collect fun c => tracksAt_peek_bind ?_
  by_cases hends : endsStmtList c.head.token
  · rw [if_pos hends, if_pos hends]
    exact tracks_pure (by simp [Round.goesOn]) c
  rw [if_neg hends, if_neg hends]
  have hbrace : c.head.token ≠ .mark .rbrace := fun ht => hends (by rw [ht]; rfl)
  have heof : c.head.token ≠ .eof := fun ht => hends (by rw [ht]; rfl)
  refine (h.at stmt (by decide) c).bind ?_
  rintro s c' ⟨hrest, htaken, _⟩
  by_cases hsemi : c.head.token = .mark .semicolon
  · -- Either the statement took something, or its semicolon is still ahead.
    by_cases hlength : c.rest.length ≤ c'.rest.length
    · have hhead := head_eq_of_length_le hrest hlength heof
      refine (tracksAt_expectEnd (hhead ▸ hsemi)).bind fun _ c'' hend => ?_
      refine tracks_pure (fun hlater => ?_) c''
      have := hend.2.1 trivial
      omega
    · refine (tracks_step.bind fun _ => tracks_pure ?_) c'
      exact fun hlater => hlength hlater.2
  · refine (tracks_step.bind fun _ => tracks_pure fun hlater => ?_) c'
    have := htaken ⟨hsemi, hbrace, heof⟩
    omega

theorem block_kept : block.Kept ls b n call :=
  tracks_taking.first fun _ => (h.calls stmtList rfl).bind fun _ => tracks_step

/-! ## Operands -/

theorem parenExpr_kept : parenExpr.Kept ls b n call := by
  refine tracks_step.bind fun start => tracks_step.bind fun lparen => ?_
  exact (h.taking expr rfl rfl).bracketed.first fun _ => tracks_step

theorem funcTypeOrLit_kept : funcTypeOrLit.Kept ls b n call := by
  refine tracks_step.bind fun start => (h.taking funcType rfl rfl).first fun t => ?_
  refine tracks_step.bind fun _ => .ite ?_ tracks_step
  exact (h.calls block rfl).bracketed.bind fun _ => tracks_step

theorem operand_kept : operand.Kept ls b n call := by
  refine fun c => tracksAt_peek_bind ?_
  split
  · exact tracks_taking.first (fun _ => tracks_step) c
  · exact (h.taking parenExpr rfl rfl) c
  · exact (h.taking funcTypeOrLit rfl rfl) c
  · next ht => exact tracksAt_take.first (fun _ => tracks_step) fun _ _ => by simp [ht]
  · refine (tracks_type? h (by decide)).bindOn (fun t _ => ?_) (fun t ht => ?_) c
    · split
      · exact tracks_step
      · exact tracks_failExpected
    · cases t with
      | none => exact tracks_failExpected
      | some t => exact (ht rfl).elim

/-! ## What follows an operand -/

theorem selectorOrAssertion_kept (x : Expr) (start : Nat) :
    (selectorOrAssertion x start).Kept ls b n call := by
  refine tracks_step.bind fun _ => tracks_step.bind fun t => ?_
  split
  · exact tracks_taking.first fun _ => tracks_step
  · refine tracks_step.bind fun _ => tracks_step.bind fun _ => ?_
    exact .join tracks_step (h.calls type rfl).some fun t =>
      tracks_taking.first fun _ => tracks_step
  · exact tracks_failExpected

theorem sliceBound_kept : sliceBound.Kept ls b n call := by
  refine tracks_step.bind fun t => ?_
  split
  · exact tracks_step
  · exact tracks_step
  · exact (h.calls expr rfl).some

theorem sliceBounds_kept : sliceBounds.Kept ls b n call := by
  refine tracks_step.bind fun _ => .ite ?_ tracks_step
  refine (h.calls sliceBound rfl).bind fun hi => tracks_step.bind fun _ => .ite ?_ tracks_step
  exact (h.calls sliceBound rfl).bind fun _ => tracks_step

theorem subscript_kept : subscript.Kept ls b n call := by
  refine tracks_step.bind fun _ => .join tracks_step (h.calls expr rfl).some fun first => ?_
  refine tracks_step.bind fun colon => ?_
  split
  · exact (h.calls expr rfl).moreRound.collect.bind fun _ => tracks_step
  · exact (h.calls sliceBounds rfl).bind fun _ => tracks_step

theorem subscripted_kept (x : Expr) (start : Nat) : (subscripted x start).Kept ls b n call := by
  refine tracks_step.bind fun _ => (h.calls subscript rfl).bracketed.bind fun sub => ?_
  refine tracks_taking.first fun rbrack => tracks_step.bind fun span => ?_
  split
  · exact tracks_step
  · exact tracks_step
  · exact tracks_failAt Fault.noConfusion
  · exact tracks_failAt Fault.noConfusion
  · exact tracks_step

theorem call_kept (f : Expr) (start : Nat) : (Production.call f start).Kept ls b n call := by
  refine tracks_step.bind fun _ => ?_
  refine (h.calls expr rfl).argRound.collect.bracketed.bind fun args => ?_
  exact tracks_taking.first fun _ => tracks_step

theorem elementValue_kept : elementValue.Kept ls b n call := by
  refine tracks_step.bind fun _ => .ite (tracks_step.bind fun start => ?_) (h.taking expr rfl rfl)
  exact h.nested (literalValue none start) rfl (fun _ => rfl) rfl

theorem element_kept : element.Kept ls b n call := by
  refine tracks_step.bind fun start => (h.taking elementValue rfl rfl).first fun key => ?_
  refine tracks_step.bind fun colon => ?_
  split
  · exact tracks_step
  · exact (h.calls elementValue rfl).bind fun _ => tracks_step

theorem literalValue_kept (t : Option Expr) (start : Nat) :
    (literalValue t start).Kept ls b n call := by
  refine tracks_taking.first fun lbrace => ?_
  exact (h.calls element rfl).commaUntilRound.collect.bracketed.bind fun _ => tracks_step

theorem primary_kept : primary.Kept ls b n call := by
  refine tracks_step.bind fun start => (h.taking operand rfl rfl).first fun x => ?_
  refine Tracks.extend (fun x => tracks_step.bind fun t => ?_) x
  split
  · exact tracks_step.bind fun _ =>
      (h.taking (selectorOrAssertion x start) rfl rfl).map fun _ _ => trivial
  · exact tracks_step.bind fun _ => (h.taking (subscripted x start) rfl rfl).map fun _ _ => trivial
  · exact tracks_step.bind fun _ =>
      (h.taking (Production.call x start) rfl rfl).map fun _ _ => trivial
  · refine tracks_step.bind fun _ => .ite (tracks_step.bind fun _ => ?_) (tracks_pure (by simp))
    exact (h.taking (literalValue (some x) start) rfl rfl).map fun _ _ => trivial
  · exact tracks_pure (by simp)

/-! ## Operators -/

theorem receiveExpr_kept : receiveExpr.Kept ls b n call := by
  refine tracks_step.bind fun start => tracks_step.bind fun opPos => tracks_step.bind fun _ => ?_
  refine .ite ?_ ?_
  · exact (h.taking type rfl rfl).first fun _ => tracks_step
  · exact (h.taking operandUnder rfl rfl).first fun _ => tracks_step

theorem starExpr_kept : starExpr.Kept ls b n call := by
  refine tracks_step.bind fun start => tracks_step.bind fun pos => ?_
  exact (h.taking operandUnder rfl rfl).first fun _ => tracks_step

theorem unaryExpr_kept (op : UnaryOp) : (unaryExpr op).Kept ls b n call := by
  refine tracks_step.bind fun start => tracks_step.bind fun opPos => ?_
  exact (h.taking operandUnder rfl rfl).first fun _ => tracks_step

theorem unary_kept : unary.Kept ls b n call := by
  refine tracks_step.bind fun t => ?_
  split
  · exact h.taking receiveExpr rfl rfl
  · exact h.taking starExpr rfl rfl
  · split
    · exact h.taking (unaryExpr _) rfl rfl
    · exact h.taking primary rfl rfl

theorem binary_kept (least : Nat) : (binary least).Kept ls b n call := by
  refine tracks_step.bind fun start => (h.taking unary rfl rfl).first fun x => ?_
  refine Tracks.extend (fun left => tracks_step.bind fun t => ?_) x
  split
  · exact tracks_pure (by simp)
  · refine .ite (tracks_pure (by simp)) (tracks_enter_bind fun m hm => ?_)
    -- The right operand is read on the level that was entered for its operator.
    subst hm
    refine tracks_step.bind fun opPos => ?_
    exact (h.taking (binary _) rfl rfl).first fun _ => tracks_step

end Productions

end GoGloss.Grammar.Production
