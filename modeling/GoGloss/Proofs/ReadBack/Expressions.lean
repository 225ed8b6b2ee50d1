import Mathlib.Data.List.Infix
import GoGloss.Proofs.ReadBack.Basic

/-!
# Legible expressions are read back

A tree is read back by every production that is loose enough for it. The statements
about the productions are `ReadAsPrimary`, `ReadAsUnary` and `ReadAsBinary`; each form of
a legible expression has its own step from the statements about its parts, and
`readBack_of_legible` puts the steps together.
-/

namespace GoGloss.Grammar

open GoGloss.Expr

/-! ## The statements -/

/-- Behind `t`, the loop over what follows an operand goes on with `t`. -/
def ReadAsPrimary (deep : Prop) (t : Expr) : Prop :=
  ∀ ⦃n c ts post⦄, Ahead deep t ts n c →
    (∀ x c' clock, Behind t ts t.kept c x c' → ts.length ≤ clock.length →
      Reads deep (extendFor (postfixRound (inner n) c.head.start) clock x) c' post) →
    Reads deep (primary (inner n)) c post

/-- No loop is left: in front of something that does not go on with an operand, `t` is read. -/
def ReadAsUnary (deep : Prop) (t : Expr) : Prop :=
  ∀ ⦃n c ts⦄, Ahead deep t ts n c → followsOperand (ts.headD .eof) = false →
    Reads deep (unary (inner n)) c (Behind t ts t.kept c)

/-- Behind `t`, the loop over operators goes on with `t`. -/
def ReadAsBinary (deep : Prop) (t : Expr) : Prop :=
  ∀ ⦃n c ts least post⦄, Ahead deep t ts n c → least ≤ t.tightness → LooserThan t.tightness ts →
    (∀ x c' clock, Behind t ts t.kept c x c' → ts.length ≤ clock.length →
      Reads deep (extendFor (binaryRound (inner n) least c.head.start) clock x) c' post) →
    Reads deep (binary (inner n) least) c post

/-- A tree is read back by every production that is loose enough for it. -/
structure ReadBack (deep : Prop) (t : Expr) : Prop where
  binary : ReadAsBinary deep t
  unary : 6 ≤ t.tightness → ReadAsUnary deep t
  primary : 7 ≤ t.tightness → ReadAsPrimary deep t

variable {deep : Prop} {n : Nat} {c : Cursor} {t : Expr} {ts : List Token}

/-! ## The loops stop -/

theorem reads_postfixRound_stop {inner : Inner} {start : Nat} {x : Expr}
    (h : followsOperand c.head.token = false) :
    Reads deep (postfixRound inner start x) c fun b c' => b = none ∧ c' = c := by
  simp only [postfixRound, reads_bind, reads_peek]
  split <;> simp_all [followsOperand]

theorem reads_binaryRound_stop {inner : Inner} {least start : Nat} {x : Expr}
    (h : ∀ op, BinaryOp.ofToken? c.head.token = some op → op.precedence < least) :
    Reads deep (binaryRound inner least start x) c fun b c' => b = none ∧ c' = c := by
  simp only [binaryRound, reads_bind, reads_peek]
  split
  · simp
  · rename_i op hop
    simp [h op hop]

/-! ## From one production to the next -/

/-- Without an operator in front, an operand is read as it is. -/
theorem ReadAsPrimary.unary (h : ReadAsPrimary deep t) {u : Token} {us : List Token}
    (ht : t.spelling = u :: us) (hu : startsOperand u = true) : ReadAsUnary deep t := by
  intro n c ts hc hts
  have hprimary : Reads deep (primary (inner n)) c (Behind t ts t.kept c) := by
    refine h hc fun x c₁ clock hx _ => reads_extendFor_stop ?_
    refine (reads_postfixRound_stop (by rwa [hx.head_token])).mono fun b c₂ hstop => ?_
    exact ⟨hstop.1, hstop.2 ▸ hx⟩
  simp only [Grammar.unary, reads_bind, reads_peek, hc.head_token ht]
  obtain ⟨text, rfl⟩ | ⟨kind, text, rfl⟩ | rfl := startsOperand_iff.mp hu <;>
    simpa [UnaryOp.ofToken?] using hprimary

/-- Without an operator behind it, a binary expression is one operand. -/
theorem ReadAsUnary.binary (h : ReadAsUnary deep t) : ReadAsBinary deep t := by
  intro n c ts least post hc hleast hts hgo
  simp only [Grammar.binary, reads_bind, reads_here]
  refine (h hc hts.operand).mono fun x c₁ hx => ?_
  rw [reads_extend_iff]
  exact hgo x c₁ c₁.rest hx hx.length_rest

/-- A whole expression gives all its levels back. -/
theorem ReadBack.expr (h : ReadBack deep t) (hc : c.tokens = t.spelling ++ ts)
    (hts : LooserThan 0 ts) (hroom : ¬ deep → c.depth + (t.need + 1) ≤ maxDepth)
    (hlevels : maxDepth ≤ c.depth + n) :
    Reads deep (expr (inner n)) c (Behind t ts 0 c) := by
  refine reads_nested_inner hlevels (fun hdeep => by have := hroom hdeep; omega) ?_
  rintro m rfl hm
  change Reads deep (Grammar.binary (inner m) 1) _ _
  have hahead : Ahead deep t ts m (c.withDepth (c.depth + 1)) := by
    refine ⟨hc, fun hdeep => ?_, hm⟩
    have := hroom hdeep
    rw [Cursor.withDepth_depth]
    omega
  have hbehind : LooserThan t.tightness ts :=
    ⟨hts.operand, fun op hop => Nat.le_trans (hts.operator op hop) (Nat.zero_le _)⟩
  refine h.binary hahead t.tightness_pos hbehind fun x c₁ clock hx _ => reads_extendFor_stop ?_
  refine (reads_binaryRound_stop fun op hop => ?_).mono fun b c₂ hstop => ?_
  · rw [hx.head_token] at hop
    exact Nat.lt_succ_of_le (hts.operator op hop)
  · -- the levels that the chain kept are given back here
    obtain ⟨hb, rfl⟩ := hstop
    exact ⟨hb, ⟨hx.tokens, hx.rest, rfl⟩, hx.bare⟩

theorem ReadBack.item {d : Nat} (h : ReadBack deep t)
    (hroom : ¬ deep → d + (t.need + 1) ≤ maxDepth) (hlevels : maxDepth ≤ d + n) :
    ReadsItem deep (Grammar.expr (inner n)) d t := by
  rintro c ts rfl hc hts
  exact h.expr hc hts hroom hlevels

theorem ReadAsUnary.operandUnder (h : ReadAsUnary deep t) (hc : c.tokens = t.spelling ++ ts)
    (hts : followsOperand (ts.headD .eof) = false)
    (hroom : ¬ deep → c.depth + (t.need + 1) ≤ maxDepth) (hlevels : maxDepth ≤ c.depth + n) :
    Reads deep (operandUnder (inner n)) c (Behind t ts 0 c) := by
  refine reads_nested_inner hlevels (fun hdeep => by have := hroom hdeep; omega) ?_
  rintro m rfl hm
  have hahead : Ahead deep t ts m (c.withDepth (c.depth + 1)) := by
    refine ⟨hc, fun hdeep => ?_, hm⟩
    have := hroom hdeep
    rw [Cursor.withDepth_depth]
    omega
  refine (h hahead hts).mono fun x c₁ hx => ?_
  exact ⟨⟨hx.tokens, hx.rest, rfl⟩, hx.bare⟩

/-! ## Operands -/

theorem readAsPrimary_ident {name : Name} : ReadAsPrimary deep (.ident name) := by
  intro n c ts post hc h
  have hhead : c.head.token = .name name.text := hc.head_token rfl
  simp only [primary, operand, reads_bind, reads_here, reads_peek, hhead]
  refine reads_name hhead ?_
  simp only [reads_makeExpr, reads_extend_iff]
  have hbehind : Behind (.ident name) ts 0 c (.ident ⟨name.text, c.head.span⟩)
      ((c.advance.withBench (c.bench.addName name.text)).withBench
        ((c.bench.addName name.text).addExpr (.ident ⟨name.text, c.head.span⟩))) :=
    ⟨(Reached.here hc.tokens).advance.congr rfl rfl, rfl⟩
  exact h _ _ _ hbehind hbehind.length_rest

theorem readAsPrimary_literal {lit : Literal} : ReadAsPrimary deep (.literal lit) := by
  intro n c ts post hc h
  have hhead : c.head.token = .literal lit.kind lit.text := hc.head_token rfl
  simp only [primary, operand, reads_bind, reads_here, reads_peek, hhead, reads_take,
    reads_makeExpr, reads_extend_iff]
  have hbehind : Behind (.literal lit) ts 0 c (.literal ⟨lit.kind, c.head.span, lit.text⟩)
      (c.advance.withBench (c.bench.addExpr (.literal ⟨lit.kind, c.head.span, lit.text⟩))) :=
    ⟨(Reached.here hc.tokens).advance.congr rfl rfl, rfl⟩
  exact h _ _ _ hbehind hbehind.length_rest

theorem readAsPrimary_paren {span lparen rparen : Span} (ht : ReadBack deep t) :
    ReadAsPrimary deep (.paren span lparen t rparen) := by
  intro n c ts post hc h
  have hhead : c.head.token = .mark .lparen := hc.head_token rfl
  simp only [primary, operand, reads_bind, reads_here, reads_peek, hhead, parenExpr, reads_take,
    reads_bracketed]
  have hinside : (c.advance.withExprLevel (c.exprLevel + 1)).tokens =
      t.spelling ++ .mark .rparen :: ts := by
    simp [hc.tokens, spelling]
  refine (ht.expr hinside (looserThan_zero ts (by simp)) hc.room hc.levels).mono fun x c₁ hx => ?_
  refine reads_expect (by simp [hx.head_token]) ?_
  simp only [reads_spanFrom, reads_makeExpr, reads_extend_iff]
  have hclosed := (((Reached.here hc.tokens).advance.withExprLevel _).trans hx.toReached).advance
  exact h _ _ _ ⟨hclosed.congr rfl rfl, by simp [Expr.bare, hx.bare]⟩ hclosed.length_rest

/-! ## What follows an operand -/

/--
One round of the loop over what follows an operand takes `u :: us` and makes `t'` of `t`.
Behind the level that it enters, it needs `k` levels more.
-/
def ReadAsRound (deep : Prop) (t t' : Expr) (u : Token) (us : List Token) (k : Nat) : Prop :=
  ∀ ⦃n start c ts x⦄, x.bare = t.bare → c.tokens = u :: (us ++ ts) →
    (¬ deep → c.depth + 1 + k ≤ maxDepth) → maxDepth ≤ c.depth + n →
    Reads deep (postfixRound (inner n) start x) c fun b c' =>
      ∃ y, b = some y ∧ y.bare = t'.bare ∧ Reached ts 1 c c'

/-- What follows an operand is one more round of the loop. -/
theorem ReadAsPrimary.round {t' : Expr} {u : Token} {us : List Token} {k : Nat}
    (ht : ReadAsPrimary deep t) (hspelling : t'.spelling = t.spelling ++ u :: us)
    (hneed : t'.need = max t.need (t.kept + 1 + k)) (hkept : t'.kept = t.kept + 1)
    (hround : ReadAsRound deep t t' u us k) : ReadAsPrimary deep t' := by
  intro n c ts post hc h
  have hroom := hc.room
  have hlevels := hc.levels
  rw [hneed] at hroom
  have hahead : Ahead deep t (u :: (us ++ ts)) n c := by
    refine ⟨by simp [hc.tokens, hspelling], fun hdeep => ?_, hc.levels⟩
    have := hroom hdeep
    omega
  refine ht hahead fun x c₁ clock hx hclock => ?_
  have hdepth := hx.depth
  refine reads_extendFor_step (by rintro rfl; simp at hclock) ?_
  refine (hround hx.bare hx.tokens (fun hdeep => ?_) ?_).mono fun b c₂ hgot => ?_
  · have := hroom hdeep
    omega
  · omega
  obtain ⟨y, hb, hbare, hy⟩ := hgot
  refine ⟨y, hb, h y c₂ clock.tail ⟨⟨hy.tokens, hy.rest.trans hx.rest, ?_⟩, hbare⟩ ?_⟩
  · rw [hy.depth, hx.depth, hkept]
    omega
  · simp at hclock ⊢
    omega

theorem readAsRound_selector {span : Span} {member : Name} :
    ReadAsRound deep t (.selector span t member) (.mark .dot) [.name member.text] 0 := by
  intro n start c ts x hx hc hroom _
  have hhead : c.head.token = .mark .dot := by simp [Cursor.head_token, hc]
  have hnext : (c.withDepth (c.depth + 1)).advance.head.token = .name member.text := by
    simp [Cursor.head_token, hc]
  simp only [postfixRound, reads_bind, reads_peek, hhead]
  refine reads_enter hroom fun _ => ?_
  simp only [reads_map, selectorOrAssertion, reads_bind, reads_discard, reads_take, reads_peek,
    hnext]
  refine reads_name hnext ?_
  simp only [reads_spanFrom, reads_makeExpr]
  exact ⟨_, rfl, by simp [Expr.bare, hx, Name.bare],
    (Reached.entered hc).advance.advance.congr rfl rfl⟩

theorem readAsRound_typeGuard {span : Span} :
    ReadAsRound deep t (.typeAssert span t none) (.mark .dot)
      [.mark .lparen, .keyword .type_, .mark .rparen] 0 := by
  intro n start c ts x hx hc hroom _
  have hhead : c.head.token = .mark .dot := by simp [Cursor.head_token, hc]
  have hparen : (c.withDepth (c.depth + 1)).advance.head.token = .mark .lparen := by
    simp [Cursor.head_token, hc]
  have hword : (c.withDepth (c.depth + 1)).advance.advance.head.token = .keyword .type_ := by
    simp [Cursor.head_token, hc]
  simp only [postfixRound, reads_bind, reads_peek, hhead]
  refine reads_enter hroom fun _ => ?_
  simp only [reads_map, selectorOrAssertion, reads_bind, reads_discard, reads_take, reads_peek,
    hparen, reads_eats, hword, if_true, reads_pure]
  refine reads_expect (by simp [Cursor.head_token, hc]) ?_
  simp only [reads_spanFrom, reads_makeExpr]
  exact ⟨_, rfl, by simp [Expr.bare, hx],
    (Reached.entered hc).advance.advance.advance.advance.congr rfl rfl⟩

theorem readAsRound_typeAssert {span : Span} {type : Expr} (htype : LegibleType type) :
    ReadAsRound deep t (.typeAssert span t (some type)) (.mark .dot)
      (.mark .lparen :: (type.spelling ++ [.mark .rparen])) (type.typeNeed + 1) := by
  intro n start c ts x hx hc hroom hlevels
  have hhead : c.head.token = .mark .dot := by simp [Cursor.head_token, hc]
  have hparen : (c.withDepth (c.depth + 1)).advance.head.token = .mark .lparen := by
    simp [Cursor.head_token, hc]
  have hword : (c.withDepth (c.depth + 1)).advance.advance.head.token ≠ .keyword .type_ := by
    obtain ⟨u, us, hspelling, hu⟩ := exists_spelling_eq_of_legibleType htype
    simp only [Cursor.head_token, Cursor.tokens_advance, Cursor.tokens_withDepth, hc, hspelling]
    rcases hu with ⟨text, rfl⟩ | rfl <;> simp
  have hinside : (c.withDepth (c.depth + 1)).advance.advance.tokens =
      type.spelling ++ .mark .rparen :: ts := by
    simp [hc]
  simp only [postfixRound, reads_bind, reads_peek, hhead]
  refine reads_enter (fun hdeep => by have := hroom hdeep; omega) fun _ => ?_
  simp only [reads_map, selectorOrAssertion, reads_bind, reads_discard, reads_take, reads_peek,
    hparen, reads_eats, hword, if_false, Bool.false_eq_true]
  refine ((readAsType_of_legibleType htype).type hinside rfl hroom (by simp; omega)).mono
    fun y c₁ hy => ?_
  refine reads_expect (by simp [hy.head_token]) ?_
  simp only [reads_spanFrom, reads_makeExpr]
  have hclosed := ((Reached.entered hc).advance.advance.trans hy.toReached).advance
  exact ⟨_, rfl, by simp [Expr.bare, hx, hy.bare], hclosed.congr rfl rfl⟩

/-! ## Indices and slices -/

/-- An expression that is read back where it stands between brackets. -/
structure Part (deep : Prop) (a : Expr) : Prop where
  starts : ∃ u us, a.spelling = u :: us ∧ startsLegible u = true
  read : ReadBack deep a

/-- An expression starts with none of the tokens that end one. -/
theorem Part.head_ne {a : Expr} (h : Part deep a) (hc : c.tokens = a.spelling ++ ts) {u : Token}
    (hu : startsLegible u = false) : c.head.token ≠ u := by
  obtain ⟨v, vs, hspelling, hv⟩ := h.starts
  have hhead : c.head.token = v := by rw [Cursor.head_token, hc, hspelling]; rfl
  rw [hhead]
  rintro rfl
  exact absurd hv (by rw [hu]; decide)

theorem reads_subscript_indices {a : Expr} {as : List Expr} (hparts : ∀ b ∈ a :: as, Part deep b)
    (hc : c.tokens = spellings (a :: as) ++ .mark .rbrack :: ts)
    (hroom : ∀ b ∈ a :: as, ¬ deep → c.depth + (b.need + 1) ≤ maxDepth)
    (hlevels : maxDepth ≤ c.depth + n) :
    Reads deep (subscript (inner n)) c fun sub c' => ∃ x xs, sub = .indices x xs ∧
      BehindAll (a :: as) (.mark .rbrack :: ts) c (x :: xs) c' := by
  have hitem : ∀ b ∈ a :: as, ReadsItem deep (Grammar.expr (inner n)) c.depth b :=
    fun b hb => (hparts b hb).read.item (hroom b hb) hlevels
  rw [spellings_cons, List.append_assoc] at hc
  have hcolon := (hparts a List.mem_cons_self).head_ne hc (u := .mark .colon) rfl
  have hlooser := looserThan_moreSpellings (.inr rfl) as ts
  simp only [subscript, reads_bind, reads_isAt, hcolon, decide_false, Bool.false_eq_true, if_false,
    reads_map]
  refine (hitem a List.mem_cons_self rfl hc hlooser).mono fun x c₁ hx => ?_
  have hdepth : c₁.depth = c.depth := hx.depth
  have hnot : decide (c₁.head.token = .mark .colon) = false := by
    rw [hx.head_token]
    cases as <;> rfl
  simp only [hnot]
  rw [reads_bind]
  refine (reads_moreUntil (fun b hb => hdepth ▸ hitem b (List.mem_cons_of_mem _ hb)) ?_
    hx.tokens).mono fun xs c₂ hxs => ?_
  · intro b hb
    obtain ⟨u, us, hspelling, hu⟩ := (hparts b (List.mem_cons_of_mem _ hb)).starts
    refine ⟨u, us, hspelling, ?_⟩
    rintro rfl
    cases hu
  · refine ⟨x, xs, rfl, hx.toReached.trans hxs.toReached, ?_⟩
    rw [List.map_cons, hx.bare, hxs.bare, List.map_cons]

theorem readAsRound_indexed {t' : Expr} {a : Expr} {as : List Expr} {k : Nat}
    (ht' : t'.bare = indexed t.bare ((a :: as).map Expr.bare))
    (hparts : ∀ b ∈ a :: as, Part deep b) (hk : ∀ b ∈ a :: as, b.need + 1 ≤ k) :
    ReadAsRound deep t t' (.mark .lbrack) (spellings (a :: as) ++ [.mark .rbrack]) k := by
  intro n start c ts x hx hc hroom hlevels
  have hhead : c.head.token = .mark .lbrack := by simp [Cursor.head_token, hc]
  have hinside : ((c.withDepth (c.depth + 1)).advance.withExprLevel (c.exprLevel + 1)).tokens =
      spellings (a :: as) ++ .mark .rbrack :: ts := by
    simp [hc]
  simp only [postfixRound, reads_bind, reads_peek, hhead]
  refine reads_enter (fun hdeep => by have := hroom hdeep; omega) fun _ => ?_
  simp only [reads_map, subscripted, reads_bind, reads_discard, reads_take, reads_bracketed]
  refine (reads_subscript_indices hparts hinside ?_ (by simp; omega)).mono fun sub c₁ hsub => ?_
  · intro b hb hdeep
    have := hroom hdeep
    have := hk b hb
    simp
    omega
  obtain ⟨y, ys, rfl, hy⟩ := hsub
  refine reads_expect (by simp [hy.head_token]) ?_
  simp only [reads_spanFrom]
  have hclosed := (((Reached.entered hc).advance.withExprLevel _).trans hy.toReached).advance
  cases ys with
  | nil =>
      refine ⟨_, rfl, ?_, hclosed.congr rfl rfl⟩
      rw [bare_index, hx, hy.bare, ht']
  | cons z zs =>
      refine ⟨_, rfl, ?_, hclosed.congr rfl rfl⟩
      rw [bare_indexList (by simp), hx, hy.bare, ht']

/-- A bound of a slice, which may be left out. -/
theorem reads_sliceBound {bound : Option Expr} {u : Token}
    (hu : u = .mark .colon ∨ u = .mark .rbrack) (hparts : ∀ a ∈ bound, Part deep a)
    (hc : c.tokens = spellingOption bound ++ u :: ts)
    (hroom : ¬ deep → c.depth + needOption bound ≤ maxDepth) (hlevels : maxDepth ≤ c.depth + n) :
    Reads deep (sliceBound (inner n)) c fun got c' =>
      got.map Expr.bare = bound.map Expr.bare ∧ Reached (u :: ts) 0 c c' := by
  cases bound with
  | none =>
      have hhead : c.head.token = u := by simp [Cursor.head_token, hc, spellingOption]
      simp only [sliceBound, reads_bind, reads_peek, hhead]
      rcases hu with rfl | rfl <;> exact ⟨rfl, .here hc⟩
  | some a =>
      have hpart := hparts a rfl
      have hlooser : LooserThan 0 (u :: ts) :=
        looserThan_zero ts (by rcases hu with rfl | rfl <;> simp)
      have hread := hpart.read.expr hc hlooser hroom hlevels
      simp only [sliceBound, reads_bind, reads_peek]
      split
      · rename_i heq
        exact absurd heq (hpart.head_ne hc rfl)
      · rename_i heq
        exact absurd heq (hpart.head_ne hc rfl)
      · rw [reads_map]
        exact hread.mono fun x c₁ hx => ⟨by simp [hx.bare], hx.toReached⟩

/-- The tokens of the bounds of a slice after the first. -/
def boundSpellings (hi top : Option Expr) (full : Bool) : List Token :=
  .mark .colon :: (spellingOption hi ++ (if full then .mark .colon :: spellingOption top else []))

theorem reads_sliceBounds {hi top : Option Expr} {full : Bool}
    (hhi : ∀ a ∈ hi, Part deep a) (htop : ∀ a ∈ top, Part deep a)
    (hempty : full = false → top = none)
    (hc : c.tokens = boundSpellings hi top full ++ .mark .rbrack :: ts)
    (hroom : ¬ deep → c.depth + needOption hi ≤ maxDepth ∧ c.depth + needOption top ≤ maxDepth)
    (hlevels : maxDepth ≤ c.depth + n) :
    Reads deep (sliceBounds (inner n)) c fun got c' => got.1.map Expr.bare = hi.map Expr.bare ∧
      got.2.1.map Expr.bare = top.map Expr.bare ∧ got.2.2 = full ∧
      Reached (.mark .rbrack :: ts) 0 c c' := by
  have hhead : c.head.token = .mark .colon := by simp [Cursor.head_token, hc, boundSpellings]
  simp only [sliceBounds, reads_bind, reads_eats, hhead, if_true]
  cases full with
  | false =>
      obtain rfl := hempty rfl
      have hbound : c.advance.tokens = spellingOption hi ++ .mark .rbrack :: ts := by
        simp [hc, boundSpellings]
      refine (reads_sliceBound (.inr rfl) hhi hbound (fun hdeep => (hroom hdeep).1)
        hlevels).mono fun got c₁ hgot => ?_
      obtain ⟨hbare, hreached⟩ := hgot
      have hclose : c₁.head.token ≠ .mark .colon := by simp [hreached.head_token]
      simp only [hclose, if_false, Bool.false_eq_true]
      exact reads_pure.mpr ⟨hbare, rfl, rfl, (Reached.here hc).advance.trans hreached⟩
  | true =>
      have hbound : c.advance.tokens =
          spellingOption hi ++ .mark .colon :: (spellingOption top ++ .mark .rbrack :: ts) := by
        simp [hc, boundSpellings]
      refine (reads_sliceBound (.inl rfl) hhi hbound (fun hdeep => (hroom hdeep).1)
        hlevels).mono ?_
      rintro got c₁ ⟨hbare, hreached⟩
      have hdepth : c₁.depth = c.depth := hreached.depth
      have hcolon : c₁.head.token = .mark .colon := by simp [hreached.head_token]
      have hlast : c₁.advance.tokens = spellingOption top ++ .mark .rbrack :: ts := by
        simp [hreached.tokens]
      simp only [hcolon, if_true]
      refine (reads_sliceBound (.inr rfl) htop hlast
        (fun hdeep => by simpa [hdepth] using (hroom hdeep).2) (by simpa [hdepth] using hlevels)).mono
        fun got' c₂ hgot' => ?_
      obtain ⟨hbare', hreached'⟩ := hgot'
      have hcolons := ((Reached.here hc).advance.trans hreached).advance
      exact ⟨hbare, hbare', rfl, hcolons.trans hreached'⟩

theorem reads_subscript_slice {lo hi top : Option Expr} {full : Bool}
    (hlo : ∀ a ∈ lo, Part deep a) (hhi : ∀ a ∈ hi, Part deep a) (htop : ∀ a ∈ top, Part deep a)
    (hempty : full = false → top = none)
    (hc : c.tokens = spellingOption lo ++ (boundSpellings hi top full ++ .mark .rbrack :: ts))
    (hroom : ¬ deep → c.depth + needOption lo ≤ maxDepth ∧ c.depth + needOption hi ≤ maxDepth ∧
      c.depth + needOption top ≤ maxDepth)
    (hlevels : maxDepth ≤ c.depth + n) :
    Reads deep (subscript (inner n)) c fun sub c' => ∃ lo' hi' top', sub = .slice lo' hi' top' full ∧
      lo'.map Expr.bare = lo.map Expr.bare ∧ hi'.map Expr.bare = hi.map Expr.bare ∧
      top'.map Expr.bare = top.map Expr.bare ∧ Reached (.mark .rbrack :: ts) 0 c c' := by
  cases lo with
  | none =>
      have hhead : c.head.token = .mark .colon := by
        simp [Cursor.head_token, hc, spellingOption, boundSpellings]
      simp only [subscript, reads_bind, reads_isAt, hhead, decide_true, if_true, reads_pure]
      refine (reads_sliceBounds hhi htop hempty hc (fun hdeep => (hroom hdeep).2) hlevels).mono
        fun got c₁ hgot => ?_
      obtain ⟨hi', top', full'⟩ := got
      obtain ⟨hbare, hbare', rfl, hreached⟩ := hgot
      exact ⟨none, hi', top', rfl, rfl, hbare, hbare', hreached⟩
  | some a =>
      have hpart := hlo a rfl
      have hcolon := hpart.head_ne hc (u := .mark .colon) rfl
      simp only [subscript, reads_bind, reads_isAt, hcolon, decide_false, Bool.false_eq_true,
        if_false, reads_map]
      refine (hpart.read.expr hc (looserThan_zero _ (by simp)) (fun hdeep => (hroom hdeep).1)
        hlevels).mono fun x c₁ hx => ?_
      have hdepth : c₁.depth = c.depth := hx.depth
      have hhead : c₁.head.token = .mark .colon := by simp [hx.head_token, boundSpellings]
      simp only [hhead, decide_true]
      rw [reads_bind]
      refine (reads_sliceBounds hhi htop hempty hx.tokens
        (fun hdeep => by simpa [hdepth] using (hroom hdeep).2)
        (by simpa [hdepth] using hlevels)).mono fun got c₂ hgot => ?_
      obtain ⟨hi', top', full'⟩ := got
      obtain ⟨hbare, hbare', rfl, hreached⟩ := hgot
      exact ⟨some x, hi', top', rfl, by simp [hx.bare], hbare, hbare', hx.toReached.trans hreached⟩

theorem readAsRound_slice {span : Span} {lo hi top : Option Expr} {full : Bool}
    (hlo : ∀ a ∈ lo, Part deep a) (hhi : ∀ a ∈ hi, Part deep a) (htop : ∀ a ∈ top, Part deep a)
    (hempty : full = false → top = none) (hfull : full = true → hi.isSome ∧ top.isSome) :
    ReadAsRound deep t (.slice span t lo hi top full) (.mark .lbrack)
      (spellingOption lo ++ (boundSpellings hi top full ++ [.mark .rbrack]))
      (max (needOption lo) (max (needOption hi) (needOption top))) := by
  intro n start c ts x hx hc hroom hlevels
  have hhead : c.head.token = .mark .lbrack := by simp [Cursor.head_token, hc]
  have hinside : ((c.withDepth (c.depth + 1)).advance.withExprLevel (c.exprLevel + 1)).tokens =
      spellingOption lo ++ (boundSpellings hi top full ++ .mark .rbrack :: ts) := by
    simp [hc]
  simp only [postfixRound, reads_bind, reads_peek, hhead]
  refine reads_enter (fun hdeep => by have := hroom hdeep; omega) fun _ => ?_
  simp only [reads_map, subscripted, reads_bind, reads_discard, reads_take, reads_bracketed]
  refine (reads_subscript_slice hlo hhi htop hempty hinside ?_ (by simp; omega)).mono
    fun sub c₁ hsub => ?_
  · intro hdeep
    have := hroom hdeep
    simp
    omega
  obtain ⟨lo', hi', top', rfl, hlo', hhi', htop', hy⟩ := hsub
  refine reads_expect (by simp [hy.head_token]) ?_
  simp only [reads_spanFrom]
  have hclosed := (((Reached.entered hc).advance.withExprLevel _).trans hy).advance
  have hbare : ∀ {a b : Option Expr}, a.map Expr.bare = b.map Expr.bare → a = none → b = none := by
    rintro _ b h rfl
    simpa using h.symm
  split
  · rename_i heq
    cases heq
  · rename_i heq
    cases heq
  · -- two colons come with the second bound and the third
    rename_i heq
    obtain ⟨-, rfl, -, rfl⟩ := Subscript.slice.inj heq
    obtain ⟨hsome, -⟩ := hfull rfl
    rw [hbare hhi' rfl] at hsome
    cases hsome
  · rename_i heq
    obtain ⟨-, -, rfl, rfl⟩ := Subscript.slice.inj heq
    obtain ⟨-, hsome⟩ := hfull rfl
    rw [hbare htop' rfl] at hsome
    cases hsome
  · rename_i heq
    obtain ⟨rfl, rfl, rfl, rfl⟩ := Subscript.slice.inj heq
    refine ⟨_, rfl, ?_, hclosed.congr rfl rfl⟩
    simp [Expr.bare, Expr.bareOption_eq, hx, hlo', hhi', htop']

/-! ## Calls -/

/-- One argument, and the comma behind it if another one follows. -/
theorem Part.argRound {a : Expr} (h : Part deep a) {u : Token}
    (hu : u = .mark .comma ∨ u = .mark .rparen) (hc : c.tokens = a.spelling ++ u :: ts)
    (hroom : ¬ deep → c.depth + (a.need + 1) ≤ maxDepth) (hlevels : maxDepth ≤ c.depth + n) :
    Reads deep (argRound (inner n)) c fun r c' => ∃ x : Expr, x.bare = a.bare ∧
      if u = .mark .comma then r = .more (x, none) ∧ Reached ts 0 c c'
      else r = .last (x, none) ∧ Reached (u :: ts) 0 c c' := by
  have hlooser : LooserThan 0 (u :: ts) :=
    looserThan_zero ts (by rcases hu with rfl | rfl <;> simp)
  simp only [Grammar.argRound, reads_bind, reads_peek]
  split
  · rename_i heq
    exact absurd heq (h.head_ne hc rfl)
  · rename_i heq
    exact absurd heq (h.head_ne hc rfl)
  · rw [reads_bind]
    refine (h.read.expr hc hlooser hroom hlevels).mono fun x c₁ hx => ?_
    rcases hu with rfl | rfl
    · simp [hx.head_token, hx.bare]
      exact hx.toReached.advance
    · simp [hx.head_token, hx.bare]
      exact hx.toReached

/-- The arguments of a call are read one after the other, none of them with dots behind it. -/
theorem reads_args {args : List Expr} (hparts : ∀ a ∈ args, Part deep a)
    {clock : List Lexeme} {items : List (Expr × Option Span)}
    (hclock : args.length ≤ clock.length)
    (hc : c.tokens = spellings args ++ .mark .rparen :: ts)
    (hroom : ∀ a ∈ args, ¬ deep → c.depth + (a.need + 1) ≤ maxDepth)
    (hlevels : maxDepth ≤ c.depth + n) :
    Reads deep (collectFor (argRound (inner n)) clock items) c fun got c' =>
      ∃ xs : List Expr, got = items.reverse ++ xs.map (·, none) ∧
        BehindAll args (.mark .rparen :: ts) c xs c' := by
  induction args generalizing c clock items with
  | nil =>
      refine reads_collectFor_stop ?_
      have hhead : c.head.token = .mark .rparen := by simp [Cursor.head_token, hc, spellings]
      simp only [argRound, reads_bind, reads_peek, hhead]
      exact reads_pure.mpr ⟨rfl, [], by simp [Round.items], .here hc, rfl⟩
  | cons a args ih =>
      have hpart := hparts a List.mem_cons_self
      have hroom' := hroom a List.mem_cons_self
      rw [spellings_cons, List.append_assoc] at hc
      cases args with
      | nil =>
          refine reads_collectFor_stop ?_
          refine (hpart.argRound (.inr rfl) hc hroom' hlevels).mono fun r c₁ hgot => ?_
          obtain ⟨x, hx, rfl, hreached⟩ := hgot
          exact ⟨rfl, [x], by simp [Round.items], hreached, by simp [hx]⟩
      | cons b args =>
          rw [moreSpellings_cons, List.cons_append] at hc
          refine reads_collectFor_step (by rintro rfl; simp at hclock) ?_
          refine (hpart.argRound (.inl rfl) hc hroom' hlevels).mono fun r c₁ hgot => ?_
          obtain ⟨x, hx, rfl, hreached⟩ := hgot
          have hdepth : c₁.depth = c.depth := hreached.depth
          refine ⟨_, rfl, ?_⟩
          refine (ih (fun a ha => hparts a (List.mem_cons_of_mem _ ha)) ?_ hreached.tokens ?_
            ?_).mono fun got c₂ hgot => ?_
          · simp at hclock ⊢
            omega
          · intro a ha
            rw [hdepth]
            exact hroom a (List.mem_cons_of_mem _ ha)
          · rwa [hdepth]
          · obtain ⟨xs, rfl, hxs⟩ := hgot
            refine ⟨x :: xs, by simp, hreached.trans hxs.toReached, ?_⟩
            rw [List.map_cons, hx, hxs.bare]
            rfl

theorem readAsRound_call {span : Span} {args : List Expr} (hparts : ∀ a ∈ args, Part deep a) :
    ReadAsRound deep t (.call span t args none) (.mark .lparen)
      (spellings args ++ [.mark .rparen]) (needAll args) := by
  intro n start c ts x hx hc hroom hlevels
  have hhead : c.head.token = .mark .lparen := by simp [Cursor.head_token, hc]
  have hinside : ((c.withDepth (c.depth + 1)).advance.withExprLevel (c.exprLevel + 1)).tokens =
      spellings args ++ .mark .rparen :: ts := by
    simp [hc]
  simp only [postfixRound, reads_bind, reads_peek, hhead]
  refine reads_enter (fun hdeep => by have := hroom hdeep; omega) fun _ => ?_
  simp only [reads_map, call, reads_bind, reads_discard, reads_take, reads_bracketed, collect,
    reads_get]
  refine (reads_args hparts ?_ hinside ?_ (by simp; omega)).mono fun got c₁ hgot => ?_
  · have hlength := length_le_spellings args
    have hrest := congrArg List.length hinside
    rw [Cursor.length_tokens, List.length_append, List.length_cons] at hrest
    exact Nat.le_trans hlength (hrest ▸ by omega)
  · intro a ha hdeep
    have := hroom hdeep
    have := need_lt_needAll ha
    simp
    omega
  obtain ⟨ys, rfl, hys⟩ := hgot
  refine reads_expect (by simp [hys.head_token]) ?_
  simp only [reads_spanFrom, reads_makeExpr]
  have hclosed := (((Reached.entered hc).advance.withExprLevel _).trans hys.toReached).advance
  refine ⟨_, rfl, ?_, hclosed.congr rfl rfl⟩
  -- no argument has dots, so the last one has none
  simp [Expr.bare, hx, ← hys.bare, Function.comp_def]
  cases ys.getLast? <;> rfl

/-! ## Operators -/

/-- The operand under an operator, which `build` puts in front of it. -/
theorem ReadAsUnary.under {t' : Expr} {u : Token} (ht : ReadAsUnary deep t)
    (build : Span → Expr → Expr) (hspelling : t'.spelling = u :: t.spelling)
    (hneed : t'.need = t.need + 1) (hkept : t'.kept = 0)
    (hbuild : ∀ span x, x.bare = t.bare → (build span x).bare = t'.bare)
    (hc : Ahead deep t' ts n c) (hts : followsOperand (ts.headD .eof) = false) :
    Reads deep (do
      let x ← Grammar.operandUnder (inner n)
      makeExpr (build (← spanFrom c.head.start) x)) c.advance (Behind t' ts t'.kept c) := by
  have hroom := hc.room
  rw [hneed] at hroom
  have hunder : c.advance.tokens = t.spelling ++ ts := by simp [hc.tokens, hspelling]
  rw [reads_bind]
  refine (ht.operandUnder hunder hts hroom hc.levels).mono fun x c₁ hx => ?_
  simp only [reads_bind, reads_spanFrom, reads_makeExpr]
  refine ⟨⟨by simpa using hx.tokens, ?_, ?_⟩, hbuild _ x hx.bare⟩
  · exact hx.rest.trans (Cursor.advance_suffix (List.suffix_refl _))
  · simp [hx.depth, hkept]

theorem readAsUnary_star {span pos : Span} (ht : ReadAsUnary deep t) :
    ReadAsUnary deep (.star span pos t) := by
  intro n c ts hc hts
  have hhead : c.head.token = .mark .star := hc.head_token rfl
  have hoperand := ht.under (fun span => .star span c.head.span) rfl rfl rfl
    (by simp +contextual [Expr.bare]) hc hts
  simpa [unary, hhead, starExpr] using hoperand

theorem readAsUnary_unary {span opPos : Span} {op : UnaryOp}
    (hstarts : ∃ u us, t.spelling = u :: us ∧ startsLegible u = true)
    (hread : ReadAsUnary deep t) : ReadAsUnary deep (.unary span op opPos t) := by
  intro n c ts hc hts
  have hhead : c.head.token = .mark op.mark := hc.head_token rfl
  have hoperand := hread.under (fun span => .unary span op c.head.span) rfl rfl rfl
    (by simp +contextual [Expr.bare]) hc hts
  -- An arrow in front of `chan` would start a channel type.
  have hchan : c.advance.head.token ≠ .keyword .chan_ := by
    obtain ⟨u, us, hu, hleads⟩ := hstarts
    have hnext : c.advance.head.token = u := by
      simp [Cursor.head_token, hc.tokens, spelling, hu]
    rw [hnext]
    rintro rfl
    cases hleads
  rw [unary, reads_bind, reads_peek, hhead]
  cases op with
  | receive => simpa [UnaryOp.mark, receiveExpr, hchan] using hoperand
  | _ => simpa [UnaryOp.mark, UnaryOp.ofToken?, unaryExpr] using hoperand

theorem BinaryOp.ofToken?_mark (op : BinaryOp) : BinaryOp.ofToken? (.mark op.mark) = some op := by
  cases op <;> rfl

/-- A round of the loop over operators takes an operator and the operand on its right. -/
theorem ReadAsBinary.round {op : BinaryOp} {least start : Nat} {x : Expr}
    (ht : ReadAsBinary deep t) (htight : op.precedence < t.tightness)
    (hleast : least ≤ op.precedence) (hts : LooserThan op.precedence ts)
    (hc : c.tokens = .mark op.mark :: (t.spelling ++ ts))
    (hroom : ¬ deep → c.depth + 1 + t.need ≤ maxDepth) (hlevels : maxDepth ≤ c.depth + n) :
    Reads deep (binaryRound (inner n) least start x) c fun b c' =>
      ∃ span pos y, b = some (.binary span x op pos y) ∧ y.bare = t.bare ∧
        Reached ts (1 + t.kept) c c' := by
  have hhead : c.head.token = .mark op.mark := by simp [Cursor.head_token, hc]
  simp only [binaryRound, reads_bind, reads_peek, hhead, BinaryOp.ofToken?_mark]
  rw [if_neg (Nat.not_lt.mpr hleast)]
  simp only [reads_bind]
  refine reads_enter (fun hdeep => by have := hroom hdeep; omega) fun hdepth => ?_
  -- the operand is read with the productions one level further in
  obtain ⟨m, rfl⟩ : ∃ m, n = m + 1 := ⟨n - 1, by omega⟩
  simp only [reads_take]
  change Reads deep (binary (inner m) (op.precedence + 1)) _ _
  have hahead : Ahead deep t ts m (c.withDepth (c.depth + 1)).advance :=
    ⟨by simp [hc], by simpa using hroom, by simp; omega⟩
  have hbehind : LooserThan t.tightness ts :=
    ⟨hts.operand, fun op' hop' => Nat.le_of_lt (Nat.lt_of_le_of_lt (hts.operator op' hop') htight)⟩
  refine ht hahead htight hbehind fun y c₁ clock hy _ => reads_extendFor_stop ?_
  refine (reads_binaryRound_stop fun op' hop' => ?_).mono fun b c₂ hstop => ?_
  · rw [hy.head_token] at hop'
    exact Nat.lt_succ_of_le (hts.operator op' hop')
  · obtain ⟨hb, rfl⟩ := hstop
    simp only [hb, reads_spanFrom, reads_makeExpr, reads_pure, true_and]
    refine ⟨_, _, y, rfl, hy.bare, by simpa using hy.tokens, ?_, ?_⟩
    · exact hy.rest.trans (Cursor.advance_suffix (List.suffix_refl _))
    · simp [hy.depth]
      omega

/-- The left operand is read by the loop itself, the right one by the round that takes it. -/
theorem readAsBinary_binary {span opPos : Span} {op : BinaryOp} {l r : Expr}
    (hl : ReadAsBinary deep l) (hr : ReadAsBinary deep r)
    (hfits : (Expr.binary span l op opPos r).Fits) :
    ReadAsBinary deep (.binary span l op opPos r) := by
  intro n c ts least post hc hleast hts h
  obtain ⟨hleft, hright⟩ := hfits
  change least ≤ op.precedence at hleast
  change LooserThan op.precedence ts at hts
  have hroom := hc.room
  have hlevels := hc.levels
  rw [need] at hroom
  have hahead : Ahead deep l (.mark op.mark :: (r.spelling ++ ts)) n c :=
    ⟨by simp [hc.tokens, spelling], fun hdeep => by have := hroom hdeep; omega, hc.levels⟩
  have hbehind : LooserThan l.tightness (.mark op.mark :: (r.spelling ++ ts)) := by
    refine ⟨by cases op <;> rfl, fun op' hop' => ?_⟩
    obtain rfl : op = op' := by simpa [BinaryOp.ofToken?_mark] using hop'
    exact hleft
  refine hl hahead (Nat.le_trans hleast hleft) hbehind fun x c₁ clock hx hclock => ?_
  have hdepth := hx.depth
  refine reads_extendFor_step (by rintro rfl; simp at hclock) ?_
  refine (hr.round hright hleast hts hx.tokens ?_ ?_).mono fun b c₂ hgot => ?_
  · intro hdeep
    have := hroom hdeep
    omega
  · omega
  obtain ⟨_, _, y, hb, hy, hreached⟩ := hgot
  refine ⟨_, hb, h _ _ _ ⟨⟨hreached.tokens, hreached.rest.trans hx.rest, ?_⟩, ?_⟩ ?_⟩
  · rw [hreached.depth, hdepth, kept]
    omega
  · simp [Expr.bare, hx.bare, hy]
  · simp at hclock ⊢
    omega

/-! ## All legible expressions -/

theorem ReadBack.of_primary (ht : t.Legible) (hbinds : (Node.expr t).Binds)
    (htight : 7 ≤ t.tightness) (h : ReadAsPrimary deep t) : ReadBack deep t := by
  obtain ⟨u, us, hu, -, hstarts⟩ := ht.exists_spelling_eq hbinds
  have hunary := h.unary hu (hstarts htight)
  exact ⟨hunary.binary, fun _ => hunary, fun _ => h⟩

theorem ReadBack.of_unary (htight : t.tightness < 7) (h : ReadAsUnary deep t) : ReadBack deep t :=
  ⟨h.binary, fun _ => h, fun hle => absurd hle (Nat.not_le.mpr htight)⟩

theorem ReadBack.of_binary (htight : t.tightness < 6) (h : ReadAsBinary deep t) :
    ReadBack deep t :=
  ⟨h, fun hle => absurd hle (by omega), fun hle => absurd hle (by omega)⟩

theorem ReadBack.part (h : ReadBack deep t) (ht : t.Legible) (hbinds : (Node.expr t).Binds) :
    Part deep t := by
  obtain ⟨u, us, hu, hstarts, -⟩ := ht.exists_spelling_eq hbinds
  exact ⟨⟨u, us, hu, hstarts⟩, h⟩

/-- An operand and what follows it are read back if the operand is. -/
theorem ReadBack.of_round {t' : Expr} {role : Role} {u : Token} {us : List Token} {k : Nat}
    (ht' : t'.Legible) (hbinds : (Node.expr t').Binds) (htight : 7 ≤ t'.tightness)
    (hmem : (role, .expr t) ∈ Node.exprChildren t') (hfits : t'.Fits → 7 ≤ t.tightness)
    (ih : (Node.expr t).Binds → ReadBack deep t) (hspelling : t'.spelling = t.spelling ++ u :: us)
    (hneed : t'.need = max t.need (t.kept + 1 + k)) (hkept : t'.kept = t.kept + 1)
    (hround : ReadAsRound deep t t' u us k) : ReadBack deep t' := by
  obtain ⟨hfit, hbelow⟩ := Node.binds_expr.mp hbinds
  have hprimary := (ih (hbelow _ hmem)).primary (hfits hfit)
  exact .of_primary ht' hbinds htight (hprimary.round hspelling hneed hkept hround)

/-- Legible expressions are read back. -/
theorem readBack_of_legible (h : t.Legible) (hbinds : (Node.expr t).Binds) : ReadBack deep t := by
  -- by induction on how the expression is built; the tightness of the operands says which
  -- of the statements about them is there to be used
  induction h with
  | ident => exact .of_primary .ident hbinds (Nat.le_refl 7) readAsPrimary_ident
  | literal => exact .of_primary .literal hbinds (Nat.le_refl 7) readAsPrimary_literal
  | paren hx ih =>
      have hbelow := (Node.binds_expr.mp hbinds).2
      exact .of_primary (.paren hx) hbinds (Nat.le_refl 7)
        (readAsPrimary_paren (ih (hbelow _ (.head _))))
  | selector hx ih =>
      exact .of_round (.selector hx) hbinds (Nat.le_refl 7) (.head _) id ih rfl rfl rfl
        readAsRound_selector
  | @index _ x i hx hi ihx ihi =>
      have hbindsi := hbinds.below _ (.tail _ (.head _))
      have hspelling : i.spelling = spellings [i] := by simp [spellings, moreSpellings]
      refine .of_round (.index hx hi) hbinds (Nat.le_refl 7) (.head _) id ihx
        (by rw [spelling, hspelling]) rfl rfl (readAsRound_indexed (bare_index _ _ _) ?_ ?_)
      · simpa using (ihi hbindsi).part hi hbindsi
      · simp
  | @indexList _ x is hx hlength his ihx ihis =>
      obtain ⟨a, as, rfl⟩ : ∃ a as, is = a :: as :=
        List.exists_cons_of_ne_nil (by rintro rfl; simp at hlength)
      have hbindsb : ∀ b ∈ a :: as, (Node.expr b).Binds := by
        have hall := hbinds.below
        rw [Node.exprChildren, Node.all_cons, Node.all_exprs] at hall
        exact hall.2
      refine .of_round (.indexList hx hlength his) hbinds (Nat.le_refl 7) (.head _) id ihx rfl rfl
        rfl (readAsRound_indexed (bare_indexList hlength _ _) (fun b hb => ?_) fun b hb => ?_)
      · exact (ihis b hb (hbindsb b hb)).part (his b hb) (hbindsb b hb)
      · exact need_lt_needAll hb
  | @slice _ x lo hi hx hlo hhi ihx ihlo ihhi =>
      have hall := hbinds.below
      simp only [Node.exprChildren, Node.all_cons, Node.all_append, Node.all_expr?] at hall
      obtain ⟨-, ⟨hbindslo, hbindshi⟩, -⟩ := hall
      refine .of_round (.slice hx hlo hhi) hbinds (Nat.le_refl 7) (.head _) id ihx
        (by simp [spelling, boundSpellings]) rfl rfl
        (readAsRound_slice (fun a ha => ?_) (fun a ha => ?_) (by simp) (fun _ => rfl) (by simp))
      · exact (ihlo a ha (hbindslo a ha)).part (hlo a ha) (hbindslo a ha)
      · exact (ihhi a ha (hbindshi a ha)).part (hhi a ha) (hbindshi a ha)
  | @fullSlice _ x hi top lo hx hlo hhi htop ihx ihlo ihhi ihtop =>
      have hall := hbinds.below
      simp only [Node.exprChildren, Node.all_cons, Node.all_append, Node.all_expr?] at hall
      obtain ⟨-, ⟨hbindslo, hbindshi⟩, hbindstop⟩ := hall
      have hhi' := (ihhi (hbindshi hi rfl)).part hhi (hbindshi hi rfl)
      have htop' := (ihtop (hbindstop top rfl)).part htop (hbindstop top rfl)
      refine .of_round (.fullSlice hx hlo hhi htop) hbinds (Nat.le_refl 7) (.head _) id ihx
        (by simp [spelling, boundSpellings]) rfl rfl
        (readAsRound_slice (fun a ha => ?_) (by simpa using hhi') (by simpa using htop') (by simp)
          (by simp))
      exact (ihlo a ha (hbindslo a ha)).part (hlo a ha) (hbindslo a ha)
  | typeGuard hx ih =>
      exact .of_round (.typeGuard hx) hbinds (Nat.le_refl 7) (.head _) id ih rfl rfl rfl
        readAsRound_typeGuard
  | typeAssert hx ht hlegible ih =>
      exact .of_round (.typeAssert hx ht hlegible) hbinds (Nat.le_refl 7) (.head _) id ih rfl rfl
        rfl (readAsRound_typeAssert ht)
  | @call _ f args hf hargs ihf ihargs =>
      have hbindsa : ∀ a ∈ args, (Node.expr a).Binds := by
        have hall := hbinds.below
        rw [Node.exprChildren, Node.all_cons, Node.all_exprs] at hall
        exact hall.2
      refine .of_round (.call hf hargs) hbinds (Nat.le_refl 7) (.head _) id ihf rfl rfl rfl
        (readAsRound_call fun a ha => ?_)
      exact (ihargs a ha (hbindsa a ha)).part (hargs a ha) (hbindsa a ha)
  | star _ ih =>
      obtain ⟨hfits, hbelow⟩ := Node.binds_expr.mp hbinds
      exact .of_unary (Nat.lt_succ_self 6)
        (readAsUnary_star ((ih (hbelow _ (.head _))).unary hfits))
  | unary hx ih =>
      obtain ⟨hfits, hbelow⟩ := Node.binds_expr.mp hbinds
      have hread := ih (hbelow _ (.head _))
      exact .of_unary (Nat.lt_succ_self 6)
        (readAsUnary_unary (hread.part hx (hbelow _ (.head _))).starts (hread.unary hfits))
  | @binary _ _ op _ _ _ _ ihl ihr =>
      obtain ⟨hfits, hbelow⟩ := Node.binds_expr.mp hbinds
      exact .of_binary op.precedence_lt
        (readAsBinary_binary (ihl (hbelow _ (.head _))).binary
          (ihr (hbelow _ (.tail _ (.head _)))).binary hfits)

/-! ## Whole sources -/

/-- What is left of a row of lexemes when one is left. -/
theorem eq_lineEnd_of_suffix {ls rest : List Lexeme} {last : Nat}
    (h : rest <:+ ls ++ [Lexeme.lineEnd last]) (hlength : rest.length = 1) :
    rest = [Lexeme.lineEnd last] := by
  rw [List.suffix_iff_eq_drop] at h
  rw [h, hlength]
  simp

/-- A source with the tokens of a legible expression is read as that expression. -/
theorem reads_wholeExpr_of_legible (ht : t.Legible) (hbinds : (Node.expr t).Binds)
    {src : String} {ls : List Lexeme} {last : Nat}
    (hsrc : tokenize src = ls ++ [Lexeme.lineEnd last]) (hls : ls.map Lexeme.token = t.spelling)
    (hroom : ¬ deep → t.need + 1 ≤ maxDepth) :
    Reads deep wholeExpr (Cursor.start (tokenize src) src.utf8ByteSize) fun x _ =>
      x.bare = t.bare := by
  generalize hstart : Cursor.start (tokenize src) src.utf8ByteSize = c
  have hrest : c.rest = ls ++ [Lexeme.lineEnd last] := by rw [← hstart]; exact hsrc
  have hc : c.tokens = t.spelling ++ [.mark .semicolon] := by
    simp [Cursor.tokens, hrest, hls, Lexeme.lineEnd]
  have hdepth : c.depth = 0 := by rw [← hstart]; rfl
  simp only [wholeExpr, reads_bind]
  refine ((readBack_of_legible ht hbinds).expr hc (looserThan_zero [] (by simp)) ?_
    (by simp)).mono fun x c₁ hx => ?_
  · rwa [hdepth, Nat.zero_add]
  have hlast : c₁.rest = [Lexeme.lineEnd last] := by
    refine eq_lineEnd_of_suffix (hrest ▸ hx.rest) ?_
    rw [← Cursor.length_tokens, hx.tokens]
    rfl
  have hhead : c₁.head = Lexeme.lineEnd last := by simp [Cursor.head, hlast]
  have hend : c₁.advance.head.token = .eof := by simp [Cursor.head_token, hx.tokens]
  simp only [reads_get, hhead, isLineEnd_lineEnd, if_true, reads_bind, reads_discard, reads_take]
  exact reads_expect hend hx.bare

end GoGloss.Grammar
