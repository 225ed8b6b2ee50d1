import GoGloss.Proofs.NestingBound.Types

/-!
# The calls for an expression

An operand gives back its levels, and what is put on top of it takes one level a
node: `binary` and `unary` climb.
-/

namespace GoGloss.Grammar

section Productions

variable {inner : Inner} (hi : inner.CallsBounded)
include hi

omit hi in
theorem yields_block_depth {c : Cursor} {post : Block → Cursor → Prop}
    (h : ∀ b c', c'.depth = c.depth → post b c') : Yields (block inner) c post := by
  simp [block]
  intro _
  refine (yields_collect_all (I := fun c' => c'.depth = c.depth) (Q := fun _ => True)
    (by simp) fun c₁ hc => ?_).mono fun stmts c₁ hgot _ => h _ _ (by simpa using hgot.1)
  simp [Round.item?, hc]
  intro _
  refine yields_nested_depth fun stmt c₂ hd => ?_
  rw [yields_expectEnd]
  simp [hd, hc]

theorem parenExpr_calls : CallsWithin (parenExpr inner) Expr.calls (exprCalls · + 1) := by
  intro c s hs
  simp [parenExpr, Expr.calls]
  exact (expr_calls hi (c.advance.withExprLevel (c.exprLevel + 1)) s hs).mono
    fun _ _ hx _ => hx

theorem funcTypeOrLit_calls : CallsWithin (funcTypeOrLit inner) Expr.calls (paramCalls · + 2) := by
  intro c s hs
  simp [funcTypeOrLit]
  refine (funcType_calls hi).yields hs fun t c₁ hs₁ ht => ?_
  refine ⟨fun _ => ?_, fun _ => ?_⟩
  · refine yields_block_depth fun body c₂ hd => ⟨?_, ?_⟩
    · simp_all
    · simpa [Expr.calls] using ht
  · exact ⟨hs₁, by omega⟩

theorem operand_calls : CallsWithin (operand inner) Expr.calls operandCalls := by
  intro c s hs
  have hone : 1 ≤ operandCalls s := by simp only [operandCalls, paramCalls]; omega
  simp only [operand, yields_bind, yields_peek]
  split
  · rw [yields_bind]
    exact yields_name_depth fun n c₁ hd => by simp [Expr.calls, hd, hs, hone]
  · refine (parenExpr_calls hi).yields hs fun x c₁ hs₁ hx => ?_
    exact ⟨hs₁, Nat.le_trans hx (Nat.le_max_left _ _)⟩
  · refine (funcTypeOrLit_calls hi).yields hs fun x c₁ hs₁ hx => ?_
    exact ⟨hs₁, Nat.le_trans hx (Nat.le_max_right _ _)⟩
  · simp [Expr.calls, hs, hone]
  · rw [yields_bind]
    refine (type?_calls hi).yields hs fun t c₁ hs₁ ht => ?_
    cases t with
    | none => simp
    | some t =>
        have := typeCalls_lt_operandCalls s
        exact yields_pure.mpr ⟨hs₁, by simp only [Expr.callsOption] at ht; omega⟩

theorem selectorOrAssertion_calls (x : Expr) (start : Nat) :
    CallsWithin (selectorOrAssertion inner x start) Expr.calls fun s =>
      max (x.calls + 1) (operandCalls s) := by
  intro c s hs
  have := typeCalls_lt_operandCalls s
  simp only [selectorOrAssertion, yields_bind, yields_discard, yields_take, yields_peek]
  split
  · refine yields_bind.mpr (yields_name_depth fun member c₁ hd => ?_)
    simp only [yields_bind, yields_spanFrom, yields_makeExpr, Expr.calls, Cursor.withBench_depth]
    exact ⟨by simp_all, Nat.le_max_left _ _⟩
  · simp
    refine ⟨fun _ _ => ⟨hs, ?_⟩, fun _ => ?_⟩
    · simp only [Expr.calls, Expr.callsOption]
      omega
    · refine (type_calls hi).yields hs fun t c₁ hs₁ ht _ => ?_
      refine ⟨hs₁, ?_⟩
      simp only [Expr.calls, Expr.callsOption]
      omega
  · simp

theorem sliceBound_calls : CallsWithin (sliceBound inner) Expr.callsOption exprCalls := by
  intro c s hs
  simp only [sliceBound, yields_bind, yields_peek]
  split
  · simp [Expr.callsOption, hs]
  · simp [Expr.callsOption, hs]
  · simpa [Expr.callsOption] using expr_calls hi c s hs

theorem sliceBounds_calls : CallsWithin (sliceBounds inner)
    (fun bounds => max (Expr.callsOption bounds.1) (Expr.callsOption bounds.2.1)) exprCalls := by
  intro c s hs
  simp [sliceBounds]
  refine ⟨fun _ => ?_, fun _ => by simp [Expr.callsOption, hs]⟩
  refine (sliceBound_calls hi).yields hs fun upper c₁ hs₁ hupper => ?_
  refine ⟨fun _ => ?_, fun _ => ⟨hs₁, by simp only [Expr.callsOption]; omega⟩⟩
  refine (sliceBound_calls hi).yields hs₁ fun bound c₂ hs₂ hbound => ?_
  exact ⟨hs₂, by omega⟩

/-- The most calls for something between the brackets after an operand. -/
def Subscript.calls : Subscript Expr → Nat
  | .indices first others => max first.calls (Expr.callsAll others)
  | .slice lo hi bound _ =>
    max (Expr.callsOption lo) (max (Expr.callsOption hi) (Expr.callsOption bound))

theorem subscript_calls : CallsWithin (subscript inner) Subscript.calls exprCalls := by
  intro c s hs
  simp [subscript]
  refine ⟨fun _ => ?_, fun _ => ?_⟩
  · refine (sliceBounds_calls hi).yields hs fun bounds c₁ hs₁ hbounds => ?_
    refine ⟨hs₁, ?_⟩
    simpa [Subscript.calls, Expr.callsOption] using hbounds
  · refine (expr_calls hi).yields hs fun first c₁ hs₁ hfirst => ?_
    by_cases hcolon : c₁.head.token = .mark .colon
    · simp [hcolon]
      refine (sliceBounds_calls hi).yields hs₁ fun bounds c₂ hs₂ hbounds => ?_
      refine ⟨hs₂, ?_⟩
      exact Nat.max_le.mpr ⟨hfirst, hbounds⟩
    · simp [hcolon]
      refine ((expr_calls hi).moreUntil hs₁).mono ?_
      rintro others c₂ ⟨hs₂, hothers⟩
      refine ⟨hs₂, ?_⟩
      exact Nat.max_le.mpr ⟨hfirst, callsAll_le hothers⟩

theorem subscripted_calls (x : Expr) (start : Nat) :
    CallsWithin (subscripted inner x start) Expr.calls fun s =>
      max (x.calls + 1) (operandCalls s) := by
  intro c s hs
  have hlt := exprCalls_lt_operandCalls s
  simp only [subscripted, yields_bind, yields_discard, yields_take, yields_bracketed,
    yields_expect, yields_spanFrom]
  refine (subscript_calls hi).yields hs fun sub c₁ hs₁ hsub _ => ?_
  have hd : (c₁.withExprLevel (c₁.exprLevel - 1)).advance.depth + s = maxDepth := hs₁
  split <;> simp only [yields_makeExpr, yields_failAt, Cursor.withBench_depth, Expr.calls,
    Expr.callsAll, Subscript.calls] at hsub ⊢
  · exact ⟨hd, by omega⟩
  · exact ⟨hd, by omega⟩
  · refine ⟨hd, ?_⟩
    split <;> omega

theorem argRound_calls {c : Cursor} {s : Nat} (hs : c.depth + s = maxDepth) :
    Yields (argRound inner) c fun r c' =>
      c'.depth + s = maxDepth ∧ ∀ arg ∈ r.item?, arg.1.calls ≤ exprCalls s := by
  simp only [argRound, yields_bind, yields_peek]
  split
  · simp [Round.item?, hs]
  · simp [Round.item?, hs]
  · rw [yields_bind]
    refine (expr_calls hi).yields hs fun x c₁ hs₁ hx => ?_
    simp [Round.item?, hs₁, hx]

theorem call_calls (f : Expr) (start : Nat) :
    CallsWithin (call inner f start) Expr.calls fun s =>
      max (f.calls + 1) (operandCalls s) := by
  intro c s hs
  simp [call]
  refine (yields_collect_all (I := fun c' => c'.depth + s = maxDepth)
    (c := c.advance.withExprLevel (c.exprLevel + 1)) hs fun c₁ hs₁ => argRound_calls hi hs₁).mono
    fun args c₁ ⟨hs₁, hargs⟩ _ => ?_
  refine ⟨hs₁, ?_⟩
  have hall : Expr.callsAll (args.map (·.1)) ≤ exprCalls s := by
    refine callsAll_le fun x hx => ?_
    obtain ⟨arg, harg, rfl⟩ := List.mem_map.mp hx
    exact hargs arg harg
  have := exprCalls_lt_operandCalls s
  simp only [Expr.calls]
  omega

omit hi in
/-- The elements of a composite literal are not said, so it takes one call more than its type. -/
theorem yields_literalValue_calls {x : Expr} {start : Nat} {c : Cursor} {post : Expr → Cursor → Prop}
    (h : ∀ y c', c'.depth = c.depth → y.calls = x.calls + 1 → post y c') :
    Yields (literalValue inner (some x) start) c post := by
  have hvalue : ∀ {c : Cursor} {post : Expr → Cursor → Prop},
      (∀ y c', c'.depth = c.depth → post y c') → Yields (elementValue inner) c post := by
    intro c post h
    simp only [elementValue, yields_bind, yields_isAt, yields_ite, yields_here]
    exact ⟨fun _ => yields_nested_depth h, fun _ => yields_nested_depth h⟩
  simp [literalValue]
  intro _
  refine (yields_commaListUntil (I := fun c' => c'.depth = c.depth) (Q := fun _ => True)
    (fun _ hc => hc) (fun c₁ hc => ?_) (by simp)).mono fun elements c₁ hgot _ =>
      h _ _ (by simpa using hgot.1) (by simp [Expr.calls, Expr.callsOption])
  simp [element]
  refine hvalue fun key c₂ hd => ⟨fun _ => hvalue fun value c₃ hd' => ?_, fun _ => hd.trans hc⟩
  simp_all

theorem postfixRound_calls {d s start : Nat} (hs : d + s = maxDepth) {x : Expr} {c : Cursor}
    (hx : Climbed d s x c) :
    Yields (postfixRound inner start x) c fun y c' => Climbed d s (y.getD x) c' := by
  -- Every case but the last enters a level, which leaves `n` of them.
  have hentered : ∀ {p : Parser Expr},
      (CallsWithin p Expr.calls fun n => max (x.calls + 1) (operandCalls n)) →
      c.depth < maxDepth → Yields p (c.withDepth (c.depth + 1)) (Climbed d s) := by
    intro p hp hdepth
    obtain ⟨n, hn⟩ : ∃ n, c.depth + 1 + n = maxDepth := ⟨maxDepth - (c.depth + 1), by omega⟩
    refine (hp (c.withDepth (c.depth + 1)) n hn).mono fun y c' ⟨hn', hy⟩ => ?_
    exact hx.step hs hn hn' hy
  simp only [postfixRound, yields_bind, yields_peek]
  split
  · simpa using hentered (selectorOrAssertion_calls hi x start)
  · simpa using hentered (subscripted_calls hi x start)
  · simpa using hentered (call_calls hi x start)
  · simp
    refine ⟨fun _ => hentered fun c₁ n hn => ?_, fun _ => hx⟩
    exact yields_literalValue_calls fun y c₂ hd hy =>
      ⟨by omega, Nat.le_trans (Nat.le_of_eq hy) (Nat.le_max_left _ _)⟩
  · simpa using hx

theorem primary_calls : CallsClimb (primary inner) := by
  intro c s hs
  simp [primary]
  refine (operand_calls hi).yields hs fun x c₁ hs₁ hx => ?_
  exact yields_extend ⟨0, by omega, by omega, by omega⟩ fun x c₂ hx => postfixRound_calls hi hs hx

omit hi in
/-- What enters no level has climbed as far as its calls allow. -/
theorem CallsWithin.climb {p : Parser Expr} {bound : Nat → Nat} (h : CallsWithin p Expr.calls bound)
    (hbound : ∀ s, bound s ≤ operandCalls s) : CallsClimb p := fun c s hs =>
  (h c s hs).mono fun _ _ hgot => ⟨0, by omega, by omega, by have := hbound s; omega⟩

theorem receiveExpr_calls : CallsWithin (receiveExpr inner) Expr.calls operandCalls := by
  intro c s hs
  have := typeCalls_lt_operandCalls s
  have := exprCalls_lt_operandCalls s
  simp [receiveExpr, Expr.calls]
  refine ⟨fun _ => ?_, fun _ => ?_⟩
  · refine (type_calls hi).yields hs fun t c₁ hs₁ ht => ?_
    exact ⟨hs₁, by omega⟩
  · refine (operandUnder_calls hi).yields hs fun x c₁ hs₁ hx => ?_
    exact ⟨hs₁, by omega⟩

theorem starExpr_calls : CallsWithin (starExpr inner) Expr.calls operandCalls := by
  intro c s hs
  have := exprCalls_lt_operandCalls s
  simp [starExpr, Expr.calls]
  refine (operandUnder_calls hi).yields hs fun x c₁ hs₁ hx => ?_
  exact ⟨hs₁, by omega⟩

theorem unaryExpr_calls (op : UnaryOp) :
    CallsWithin (unaryExpr inner op) Expr.calls operandCalls := by
  intro c s hs
  have := exprCalls_lt_operandCalls s
  simp [unaryExpr, Expr.calls]
  refine (operandUnder_calls hi).yields hs fun x c₁ hs₁ hx => ?_
  exact ⟨hs₁, by omega⟩

theorem unary_calls : CallsClimb (unary inner) := by
  intro c s hs
  simp only [unary, yields_bind, yields_peek]
  split
  · exact (receiveExpr_calls hi).climb (fun _ => Nat.le_refl _) c s hs
  · exact (starExpr_calls hi).climb (fun _ => Nat.le_refl _) c s hs
  · split
    · exact (unaryExpr_calls hi _).climb (fun _ => Nat.le_refl _) c s hs
    · exact primary_calls hi c s hs

theorem binaryRound_calls {d s least start : Nat} (hs : d + s = maxDepth) {left : Expr} {c : Cursor}
    (hleft : Climbed d s left c) :
    Yields (binaryRound inner least start left) c fun x c' => Climbed d s (x.getD left) c' := by
  simp only [binaryRound, yields_bind, yields_peek]
  split
  · simpa using hleft
  · simp
    refine ⟨fun _ => hleft, fun _ hdepth => ?_⟩
    obtain ⟨k, hk, hd, hcalls⟩ := hleft
    -- The right operand climbs on from the level of its operator.
    refine (hi.binary _ _ (s - (k + 1)) (by simp; omega)).mono fun right c₁ hgot => ?_
    obtain ⟨j, hj, hd₁, hright⟩ := hgot
    have := operandCalls_mono (Nat.sub_le s (k + 1))
    simp only [Cursor.advance_depth, Cursor.withDepth_depth] at hd₁
    refine ⟨k + 1 + j, by omega, by simp; omega, ?_⟩
    simp only [Expr.calls]
    omega

theorem binary_calls (least : Nat) : CallsClimb (binary inner least) := by
  intro c s hs
  simp [binary]
  refine (unary_calls hi c s hs).mono fun x c₁ hx => ?_
  exact yields_extend hx fun x c₂ hx => binaryRound_calls hi hs hx

end Productions

end GoGloss.Grammar
