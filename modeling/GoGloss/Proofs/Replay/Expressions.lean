import GoGloss.Proofs.Replay.Types

/-!
# Expressions read again

An operand by itself, and each thing written after it, ends with a token of its own and
is repeated at any level. What goes on as long as it can are the two chains, of things
after an operand and of operators. The second run meets the same lexemes up to the cut;
behind it nothing can go on.
-/

namespace GoGloss.Grammar

variable {k : Cut} {ℓ : LevelRule} {i j : Inner} [h : Inner.Repeats k i j]
include h

/-! ## Blocks -/

omit h in
/-- A statement that takes nothing is followed by a semicolon, which is taken then. -/
theorem advancing_stmtList (h : Inner.Repeats k i j) : Advancing (Body.stmtRound (stmt i)) := by
  intro c
  simp only [yields_bind, yields_peek, yields_ite, yields_pure]
  refine ⟨fun _ => by simp [Round.goesOn], fun hends s c₁ hrun => ?_⟩
  have hmoves := (Repeats.nested h.stmt).moves c s c₁ hrun
  refine yields_expectEnd.mpr ?_
  refine ⟨fun hsemicolon _ => ?_, fun hclose _ => ?_⟩
  · have hrest := Cursor.rest_ne_nil (c := c₁) (by simp [hsemicolon])
    have hle := hmoves.1.length_le
    rw [Cursor.advance_rest, List.length_tail]
    omega
  · rcases Nat.lt_or_ge c₁.rest.length c.rest.length with hlt | hstays
    · exact hlt
    have hsame : c₁.rest = c.rest := hmoves.1.eq_of_length_le (by omega)
    have hhead : c.head.token = c₁.head.token := by
      cases hrest : c.rest <;> simp [Cursor.head, hrest, hsame]
    rw [← hhead] at hclose
    rcases hclose with hclose | hclose | hclose
    · have hnone : Yields (stmt i) c fun _ _ => False := by
        rw [stmt, yields_nested]
        exact fun _ => h.stmt_rparen _ hclose
      exact (hnone s c₁ hrun).elim
    · simp [hclose, endsStmtList] at hends
    · simp [hclose, endsStmtList] at hends

instance : Repeats k .alike 1 (stmt i) (stmt j) := by
  unfold stmt
  infer_instance

instance : Repeats k .alike 1 (stmtList i) (stmtList j) :=
  Repeats.collect inferInstance (advancing_stmtList h)

instance : Gains k .alike 0 (block i) (block j) := by
  unfold block
  infer_instance

/-! ## Operands -/

instance : Repeats k .alike 1 (exprList i) (exprList j) := by
  unfold exprList
  infer_instance

instance : Gains k ℓ 0 (funcTypeOrLit i) (funcTypeOrLit j) := by
  refine .after fun start => .step fun t => ?_
  exact .isAt_or rfl inferInstance inferInstance

instance : Gains k ℓ 0 (operand i) (operand j) := by
  refine .of_peek fun t => ?_
  split
  · exact ⟨_, _, inferInstance, fun _ _ => rfl, fun _ _ => rfl⟩
  · exact ⟨_, _, inferInstance, fun _ _ => rfl, fun _ _ => rfl⟩
  · exact ⟨_, _, inferInstance, fun _ _ => rfl, fun _ _ => rfl⟩
  · rename_i kind text
    exact ⟨_, _, .bind (gains_expect (t := .literal kind text) nofun) inferInstance,
      fun _ => take_bind_eq, fun _ => take_bind_eq⟩
  · exact ⟨_, _, .of_some inferInstance (by simp) inferInstance, fun _ _ => rfl, fun _ _ => rfl⟩

/-! ## What follows an operand -/

instance (x : Expr) (start : Nat) :
    Gains k ℓ 0 (selectorOrAssertion i x start) (selectorOrAssertion j x start) := by
  refine .after fun _ => .after fun t => ?_
  split
  · infer_instance
  · refine .after fun _ => .after fun isType => ?_
    dsimp only
    split <;> infer_instance
  · infer_instance

instance : Repeats k .alike 1 (sliceBound i) (sliceBound j) := by
  refine .step fun t => ?_
  split <;> infer_instance

instance : Repeats k .alike 1 (sliceBounds i) (sliceBounds j) := by
  unfold sliceBounds
  infer_instance

instance : Repeats k .alike 1 (subscript i) (subscript j) := by
  unfold subscript Body.subscript
  dsimp only
  refine .step fun colon => ?_
  split
  · refine .step fun first => .step fun colon => ?_
    split <;> infer_instance
  · refine .step fun first => .step fun colon => ?_
    split <;> infer_instance

instance (x : Expr) (start : Nat) :
    Gains k ℓ 0 (subscripted i x start) (subscripted j x start) := by
  refine .after fun _ => .after fun sub => ?_
  refine .step fun rbrack => .step fun span => ?_
  split <;> infer_instance

instance : Repeats k .alike 1 (argRound i) (argRound j) := by
  refine .step fun t => ?_
  split
  · infer_instance
  · infer_instance
  · refine .step fun x => .step fun dots => ?_
    split <;> infer_instance

omit h in
/-- Only a comma makes a call have another argument. -/
theorem advancing_argRound (h : Inner.Repeats k i j) : Advancing (argRound i) := by
  intro c
  simp only [argRound, yields_bind, yields_peek]
  split
  · simp [Round.goesOn]
  · simp [Round.goesOn]
  · rw [yields_bind]
    intro x c₁ hrun
    have hlt := Rises.takes (k := k) (q := expr j) c x c₁ hrun
    simp only [yields_bind, yields_eat]
    refine ⟨fun _ => by simp [Round.goesOn], fun _ => ?_⟩
    rw [yields_eats]
    refine ⟨fun hcomma => ?_, fun _ => by simp [Round.goesOn]⟩
    have hrest := Cursor.rest_ne_nil (c := c₁) (by simp [hcomma])
    simp only [if_true, yields_pure, Cursor.advance_rest, List.length_tail]
    omega

instance (f : Expr) (start : Nat) : Gains k ℓ 0 (call i f start) (call j f start) := by
  have hargs : Repeats k .alike 1 (collect (argRound i)) (collect (argRound j)) :=
    Repeats.collect inferInstance (advancing_argRound h)
  unfold call
  infer_instance

instance : Repeats k .alike 1 (elementValue i) (elementValue j) := by
  unfold elementValue
  infer_instance

instance : Repeats k .alike 1 (element i) (element j) := by
  refine .step fun start => .step fun key => ?_
  refine .step fun colon => ?_
  split <;> infer_instance

instance (t : Option Expr) (start : Nat) :
    Gains k ℓ 0 (literalValue i t start) (literalValue j t start) := by
  unfold literalValue
  infer_instance

/-! ## Chains of things after an operand -/

omit h in
/-- What can be the type of a literal in a header can be it anywhere. -/
theorem opensLiteral_mono {x : Expr} {m n : Int} (hmn : 0 ≤ m → 0 ≤ n) (hopens : opensLiteral x m) :
    opensLiteral x n := by
  unfold opensLiteral at *
  split at hopens <;> simp_all

omit h in
theorem Gains.yields_entered {p q : Parser Expr} {e : Nat} (hp : Gains k ℓ e p q) (c : Cursor) :
    Yields (do enter; some <$> p) c fun y c' => (c'.rest <:+ c.rest ∧ c'.exprLevel = c.exprLevel) ∧
      c'.rest.length < c.rest.length ∧ y.isSome := by
  rw [yields_bind, yields_enter]
  intro _
  rw [yields_map]
  intro x c' hrun
  have hmoves := hp.moves _ x c' hrun
  have htakes := hp.takes _ x c' hrun
  exact ⟨hmoves, htakes, rfl⟩

/-- What a round after an operand can do. -/
structure PostfixStep (x : Expr) (c : Cursor) (y : Option Expr) (c' : Cursor) : Prop where
  moves : c'.rest <:+ c.rest ∧ c'.exprLevel = c.exprLevel
  takes : y.isSome → c'.rest.length < c.rest.length
  stays : y = none → c' = c
  opens : c.head.token = .mark .lbrace → y.isSome → opensLiteral x c.exprLevel

omit h in
theorem yields_postfixRound (h : Inner.Repeats k i j) (start : Nat) (x : Expr) (c : Cursor) :
    Yields (postfixRound i start x) c (PostfixStep x c) := by
  have hgains : ∀ {p : Parser Expr} (q : Parser Expr) [Gains k .any 0 p q],
      (c.head.token = .mark .lbrace → opensLiteral x c.exprLevel) →
      Yields (do enter; some <$> p) c (PostfixStep x c) := fun q hp hopens =>
    (hp.yields_entered c).mono fun y c' hgot => ⟨hgot.1, fun _ => hgot.2.1,
      fun hnone => by simp [hnone] at hgot, fun hbrace _ => hopens hbrace⟩
  have hnone : Yields (pure none) c (PostfixStep x c) :=
    yields_pure.mpr ⟨⟨List.suffix_rfl, rfl⟩, nofun, fun _ => rfl, fun _ => nofun⟩
  simp only [postfixRound, yields_bind, yields_peek]
  split
  · rename_i htoken
    exact hgains (selectorOrAssertion j x start) (by simp [htoken])
  · rename_i htoken
    exact hgains (subscripted j x start) (by simp [htoken])
  · rename_i htoken
    exact hgains (call j x start) (by simp [htoken])
  · rw [yields_bind, yields_get, yields_ite]
    refine ⟨fun hopens => ?_, fun _ => hnone⟩
    exact hgains (literalValue j (some x) start) fun _ => hopens
  · exact hnone

/-- Where both see the same lexeme and a brace means the same, the round is repeated. -/
theorem again_postfixRound {start : Nat} {x : Expr} {c d : Cursor} (hcd : c.Beside k ℓ d)
    (hhead : c.head = d.head)
    (hbrace : c.head.token = .mark .lbrace →
      opensLiteral x c.exprLevel = opensLiteral x d.exprLevel) :
    Yields (postfixRound i start x) c fun y c' => k.back.length ≤ c'.rest.length →
      Reads True (postfixRound j start x) d (Again k ℓ d y c') := by
  simp only [postfixRound, yields_bind, yields_peek, reads_bind, reads_peek, ← hhead]
  split
  · exact Repeats.again (e := 0) c d hcd
  · exact Repeats.again (e := 0) c d hcd
  · exact Repeats.again (e := 0) c d hcd
  · rename_i htoken
    simp only [yields_bind, yields_get, reads_bind, reads_get, ← hbrace htoken]
    split
    · exact Repeats.again (e := 0) c d hcd
    · exact Repeats.again (e := 0) c d hcd
  · exact Repeats.again (e := 0) c d hcd

omit h in
theorem rerun_suffixes (h : Inner.Repeats k i j) (start : Nat) (level : Int) :
    Rerun k .rising level (fun c => k.back.length ≤ c.rest.length) (postfixRound i start)
      (postfixRound j start) where
  bound hle := hle
  takes hrun := (yields_postfixRound h start _ _ _ _ hrun).takes rfl
  start hrun hle := by
    have htakes := (yields_postfixRound h start _ _ _ _ hrun).takes rfl
    omega
  again {y z c c' d} hcd _ hrun hle := by
    have hstep := yields_postfixRound h start _ _ _ _ hrun
    have htakes := hstep.takes rfl
    refine again_postfixRound hcd (hcd.ahead (by omega)).1 (fun hbrace => ?_) _ c' hrun hle
    have hopens := hstep.opens hbrace rfl
    rw [hopens, opensLiteral_mono hcd.level.2.2 hopens]

/-- Where nothing follows an operand, nothing does again. -/
theorem again_postfixRound_none {start : Nat} {x : Expr} {c c' d : Cursor}
    (hcd : c.Beside k .rising d) (hrun : postfixRound i start x c = .ok none c')
    (hsettled : c'.Settled k d.exprLevel) :
    Reads True (postfixRound j start x) d (Again k .rising d none c') := by
  obtain rfl := (yields_postfixRound h start x c _ _ hrun).stays rfl
  by_cases hlt : k.back.length < c'.rest.length
  · refine again_postfixRound hcd (hcd.ahead hlt).1 (fun hbrace => ?_) _ c' hrun hsettled.1
    have halike : 0 ≤ d.exprLevel → 0 ≤ c'.exprLevel := hsettled.2 hlt hbrace
    refine Bool.eq_iff_iff.mpr ⟨opensLiteral_mono hcd.level.2.2, opensLiteral_mono halike⟩
  · rw [postfixRound, reads_bind, reads_peek]
    rcases Token.closes_iff.mp (hcd.closes (by omega)) with ht | ht | ht
    all_goals
      rw [ht]
      exact ⟨rfl, hcd, rfl⟩

omit h in
/-- A chain that goes on as long as it can, and what it starts with. -/
theorem Rises.chain {p q : Parser Expr} {round round' : Nat → Expr → Parser (Option Expr)}
    {E : Int → Cursor → Prop}
    (hmoves : ∀ c, Yields p c fun _ c' => c'.rest <:+ c.rest ∧ c'.exprLevel = c.exprLevel)
    (htakes : ∀ c, Yields p c fun _ c' => c'.rest.length < c.rest.length)
    (hagain : ∀ c d, c.Beside k .rising d → Yields p c fun x c' =>
      E d.exprLevel c' → Reads True q d (Again k .rising d x c'))
    (hround : ∀ start y c, Yields (round start y) c fun _ c' =>
      c'.rest <:+ c.rest ∧ c'.exprLevel = c.exprLevel)
    (hrerun : ∀ start level, Rerun k .rising level (E level) (round start) (round' start))
    (hend : ∀ {start y c c' level}, round start y c = .ok none c' → c'.Settled k level → E level c)
    (hstop : ∀ {start y c c' d}, c.Beside k .rising d → round start y c = .ok none c' →
      c'.Settled k d.exprLevel → Reads True (round' start y) d (Again k .rising d none c')) :
    Rises k (do let start ← here; extend (round start) (← p))
      (do let start ← here; extend (round' start) (← q)) where
  moves c := by
    rw [yields_bind, yields_here, yields_bind]
    refine (hmoves c).mono fun x c₁ h₁ => ?_
    exact (moves_extend (hround _) x c₁).mono fun _ c₂ h₂ => ⟨h₂.1.trans h₁.1, h₂.2.trans h₁.2⟩
  takes c := by
    rw [yields_bind, yields_here, yields_bind]
    refine (htakes c).mono fun x c₁ hlt => ?_
    exact (moves_extend (hround _) x c₁).mono fun _ c₂ h₂ =>
      Nat.lt_of_le_of_lt h₂.1.length_le hlt
  again c d hcd := by
    rw [yields_bind, yields_here, yields_bind]
    intro x c₁ hrun y c' hextend hsettled
    have hlt := htakes c x c₁ hrun
    have hle := (moves_extend (hround _) x c₁ y c' hextend).1.length_le
    obtain ⟨c₂, hgrown, hnone⟩ := yields_extend_stop y c' hextend
    have hE := hend hnone hsettled
    have hrounds := hrerun c.head.start d.exprLevel
    have hhead := (hcd.ahead (by have := hsettled.1; omega)).1
    simp only [reads_bind, reads_here, ← hhead]
    refine (hagain c d hcd x c₁ hrun (hgrown.start hrounds hE)).mono ?_
    rintro _ d₁ ⟨rfl, h₁, hlevel₁⟩
    rw [reads_extend_iff]
    refine hgrown.rerun hrounds hE h₁ hlevel₁ (fun clock d₂ h₂ hlevel₂ _ => ?_) d₁.rest
      h₁.clock_le
    refine reads_extendFor_stop ((hstop h₂ hnone (hlevel₂ ▸ hsettled)).mono ?_)
    rintro _ d' ⟨rfl, h', hlevel'⟩
    exact ⟨rfl, rfl, h', hlevel'.trans hlevel₂⟩

instance : Rises k (primary i) (primary j) :=
  .chain (E := fun _ c => k.back.length ≤ c.rest.length)
    (Repeats.moves k .any 0 (operand j)) (Gains.takes k .any 0 (operand j))
    (fun c d hcd => Repeats.again (e := 0) c d hcd)
    (fun start y c => (yields_postfixRound h start y c).mono fun _ _ hstep => hstep.moves)
    (rerun_suffixes h)
    (fun hrun hsettled => (yields_postfixRound h _ _ _ _ _ hrun).stays rfl ▸ hsettled.1)
    again_postfixRound_none

/-! ## Operators -/

section Wrapping

variable {α : Type} {p q : Parser Expr}

omit h in
/-- What is repeated at any level is repeated out of a header. -/
theorem Gains.rises (hp : Gains k .rising 0 p q) : Rises k p q where
  moves := hp.moves
  takes := hp.takes
  again c d hcd x c' hrun hsettled := hp.again c d hcd x c' hrun hsettled.1

omit h in
theorem Rises.after {r r' : Parser α} {f f' : α → Parser Expr} [hr : Repeats k .rising 1 r r']
    (hf : ∀ a, Rises k (f a) (f' a)) : Rises k (r >>= f) (r' >>= f') where
  moves c := by
    rw [yields_bind]
    refine (hr.moves c).mono fun a c₁ h₁ => ((hf a).moves c₁).mono fun b c₂ h₂ => ?_
    exact ⟨h₂.1.trans h₁.1, h₂.2.trans h₁.2⟩
  takes c := by
    rw [yields_bind]
    intro a c₁ hrun x c' hrun'
    exact Nat.lt_of_lt_of_le ((hf a).takes c₁ x c' hrun') (hr.length_le hrun)
  again c d hcd := by
    rw [yields_bind]
    intro a c₁ hrun x c' hrun' hsettled
    have hlt := (hf a).takes c₁ x c' hrun'
    have hle := hsettled.1
    rw [reads_bind]
    refine (hr.again c d hcd a c₁ hrun (by omega)).mono ?_
    rintro _ d₁ ⟨rfl, h₁, hlevel₁⟩
    refine ((hf _).again c₁ d₁ h₁ x c' hrun' (hlevel₁ ▸ hsettled)).mono ?_
    rintro _ d₂ ⟨rfl, h₂, hlevel₂⟩
    exact ⟨rfl, h₂, hlevel₂.trans hlevel₁⟩

omit h in
/-- A node around an expression ends where the expression does. -/
theorem Rises.wrap (hp : Rises k p q) (start : Nat) (node : Span → Expr → Expr) :
    Rises k (do let x ← p; makeExpr (node (← spanFrom start) x))
      (do let x ← q; makeExpr (node (← spanFrom start) x)) where
  moves c := by
    rw [yields_bind]
    refine (hp.moves c).mono fun x c₁ h₁ => ?_
    rw [yields_bind, yields_spanFrom, yields_makeExpr]
    exact h₁
  takes c := by
    rw [yields_bind]
    refine (hp.takes c).mono fun x c₁ h₁ => ?_
    rw [yields_bind, yields_spanFrom, yields_makeExpr]
    exact h₁
  again c d hcd := by
    rw [yields_bind]
    intro x c₁ hrun
    rw [yields_bind, yields_spanFrom, yields_makeExpr]
    intro hsettled
    rw [reads_bind]
    refine (hp.again c d hcd x c₁ hrun hsettled).mono ?_
    rintro _ d₁ ⟨rfl, h₁, hlevel₁⟩
    rw [reads_bind, reads_spanFrom, reads_makeExpr, Cursor.spanFrom, Cursor.spanFrom, h₁.lastStop]
    exact ⟨rfl, h₁.withBench _ _, hlevel₁⟩

end Wrapping

instance : Rises k (receiveExpr i) (receiveExpr j) := by
  refine .after fun start => .after fun opPos => ?_
  refine .after fun isChan => ?_
  split
  · exact Gains.rises inferInstance
  · exact Rises.wrap inferInstance start fun span x => .unary span .receive opPos x

instance : Rises k (starExpr i) (starExpr j) := by
  refine .after fun start => .after fun pos => ?_
  exact Rises.wrap inferInstance start fun span x => .star span pos x

instance (op : UnaryOp) : Rises k (unaryExpr i op) (unaryExpr j op) := by
  refine .after fun start => .after fun opPos => ?_
  exact Rises.wrap inferInstance start fun span x => .unary span op opPos x

instance : Rises k (unary i) (unary j) := by
  refine .after fun t => ?_
  split
  · infer_instance
  · infer_instance
  · split <;> infer_instance

/-- What one more operator can do. -/
structure BinaryStep (least : Nat) (c : Cursor) (y : Option Expr) (c' : Cursor) : Prop where
  moves : c'.rest <:+ c.rest ∧ c'.exprLevel = c.exprLevel
  takes : y.isSome → c'.rest.length < c.rest.length
  stays : y = none → c' = c
  operator : y.isSome → ∃ op, BinaryOp.ofToken? c.head.token = some op ∧ least ≤ op.precedence

omit h in
theorem yields_binaryRound (h : Inner.Repeats k i j) (least start : Nat) (x : Expr) (c : Cursor) :
    Yields (binaryRound i least start x) c (BinaryStep least c) := by
  have hnone : Yields (pure none) c (BinaryStep least c) :=
    yields_pure.mpr ⟨⟨List.suffix_rfl, rfl⟩, by simp, fun _ => rfl, by simp⟩
  simp only [binaryRound, yields_bind, yields_peek]
  cases hop : BinaryOp.ofToken? c.head.token with
  | none => exact hnone
  | some op =>
      rw [yields_ite]
      refine ⟨fun _ => hnone, fun hleast => ?_⟩
      simp only [yields_bind, yields_enter, yields_take, yields_spanFrom, yields_makeExpr,
        yields_pure]
      intro _ right c₁ hrun
      have hmoves := (h.binary (op.precedence + 1)).moves _ right c₁ hrun
      have htakes := (h.binary (op.precedence + 1)).takes _ right c₁ hrun
      have htail : c.rest.tail <:+ c.rest := List.tail_suffix c.rest
      exact ⟨⟨hmoves.1.trans htail, hmoves.2⟩,
        fun _ => Nat.lt_of_lt_of_le htakes htail.length_le, by simp,
        fun _ => ⟨op, hop, Nat.le_of_not_lt hleast⟩⟩

/-- An operator that is taken is taken again by a chain that takes weaker ones too. -/
theorem again_binaryRound {least least' start : Nat}
    (hleast : ∀ op : BinaryOp, least ≤ op.precedence → least' ≤ op.precedence) {x y : Expr}
    {c c' d : Cursor} (hcd : c.Beside k .rising d)
    (hrun : binaryRound i least start x c = .ok (some y) c') (hsettled : c'.Settled k d.exprLevel) :
    Reads True (binaryRound j least' start x) d (Again k .rising d (some y) c') := by
  have hstep := yields_binaryRound h least start x c _ _ hrun
  obtain ⟨op, hop, hprecedence⟩ := hstep.operator rfl
  have htakes := hstep.takes rfl
  have hahead := hcd.ahead (by have := hsettled.1; omega)
  suffices hyields : Yields (binaryRound i least start x) c fun y c' =>
      c'.Settled k d.exprLevel → y.isSome →
        Reads True (binaryRound j least' start x) d (Again k .rising d y c') from
    hyields _ c' hrun hsettled rfl
  simp only [binaryRound, yields_bind, yields_peek, reads_bind, reads_peek, ← hahead.1, hop]
  rw [if_neg (Nat.not_lt.mpr hprecedence), if_neg (Nat.not_lt.mpr (hleast op hprecedence))]
  simp only [yields_bind, yields_enter, yields_take, yields_spanFrom, yields_makeExpr,
    yields_pure, reads_bind]
  intro _ right c₁ hright hsettled₁ _
  refine reads_enter (by simp) fun _ => ?_
  have hinside := hahead.2.withDepth (c.depth + 1) (d.depth + 1)
  rw [reads_take]
  refine ((h.binary (op.precedence + 1)).again _ _ hinside right c₁ hright hsettled₁).mono ?_
  rintro _ d₁ ⟨rfl, h₁, hlevel₁⟩
  simp only [reads_spanFrom, reads_makeExpr, reads_pure, Cursor.spanFrom, h₁.lastStop]
  refine ⟨?_, h₁.withBench _ _, hlevel₁⟩
  rw [Cursor.withDepth_head, Cursor.withDepth_head, hahead.1]

omit h in
theorem Token.closes.no_operator {t : Token} (ht : t.closes) : BinaryOp.ofToken? t = none := by
  rcases Token.closes_iff.mp ht with rfl | rfl | rfl <;> rfl

/-- Where no operator follows, none does again. -/
theorem again_binaryRound_none {least start : Nat} {x : Expr} {c c' d : Cursor}
    (hcd : c.Beside k .rising d) (hrun : binaryRound i least start x c = .ok none c') :
    Reads True (binaryRound j least start x) d (Again k .rising d none c') := by
  obtain rfl := (yields_binaryRound h least start x c _ _ hrun).stays rfl
  by_cases hlt : k.back.length < c'.rest.length
  · have hhead := (hcd.ahead hlt).1
    suffices hyields : Yields (binaryRound i least start x) c' fun y _ => y = none →
        Reads True (binaryRound j least start x) d (Again k .rising d none c') from
      hyields _ _ hrun rfl
    simp only [binaryRound, yields_bind, yields_peek, reads_bind, reads_peek, ← hhead]
    cases hop : BinaryOp.ofToken? c'.head.token with
    | none => exact yields_pure.mpr fun _ => ⟨rfl, hcd, rfl⟩
    | some op =>
        rw [yields_ite]
        refine ⟨fun hweak => yields_pure.mpr fun _ => ?_, fun _ => by simp⟩
        dsimp only
        rw [if_pos hweak]
        exact ⟨rfl, hcd, rfl⟩
  · have hnone := Token.closes.no_operator (hcd.closes (by omega))
    simp only [binaryRound, reads_bind, reads_peek, hnone]
    exact ⟨rfl, hcd, rfl⟩

omit h in
theorem rerun_binary (h : Inner.Repeats k i j) {least least' : Nat}
    (hleast : ∀ op : BinaryOp, least ≤ op.precedence → least' ≤ op.precedence) (start : Nat)
    (level : Int) : Rerun k .rising level (Cursor.Settled k level)
      (binaryRound i least start) (binaryRound j least' start) where
  bound hsettled := hsettled.1
  takes hrun := (yields_binaryRound h least start _ _ _ _ hrun).takes rfl
  start hrun hsettled := by
    have hstep := yields_binaryRound h least start _ _ _ _ hrun
    have htakes := hstep.takes rfl
    obtain ⟨op, hop, -⟩ := hstep.operator rfl
    refine ⟨by have := hsettled.1; omega, fun _ hbrace => ?_⟩
    simp [hbrace, BinaryOp.ofToken?] at hop
  again hcd hlevel hrun hsettled := again_binaryRound hleast hcd hrun (hlevel ▸ hsettled)

instance (least : Nat) : Rises k (binary i least) (binary j least) :=
  .chain (E := Cursor.Settled k) (Rises.moves k (unary j)) (Rises.takes k (unary j))
    (fun c d hcd => Rises.again c d hcd)
    (fun start y c => (yields_binaryRound h least start y c).mono fun _ _ hstep => hstep.moves)
    (rerun_binary h fun _ => id)
    (fun hrun hsettled => (yields_binaryRound h least _ _ _ _ _ hrun).stays rfl ▸ hsettled)
    fun hcd hrun _ => again_binaryRound_none hcd hrun

end GoGloss.Grammar
