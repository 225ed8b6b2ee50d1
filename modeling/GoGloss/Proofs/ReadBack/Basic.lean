import GoGloss.Proofs.Legible
import GoGloss.Proofs.Reads
import GoGloss.Proofs.Tower

/-!
# Reading a tree back

What a legible expression is written as is read as that expression. What makes it more
than going through the grammar is that the readers build from the left, while a tree
is taken apart from the top: the operands of `a + b + c` are read in one loop, of
which the tree knows nothing. So the statements about a tree say what is left to do
behind it. To read `t` and go on is to go on from `t`: a loop that meets the tokens
of `t` arrives, however many rounds that takes, at the round behind them, with `t`
in its hands.

This module has what the statements are made of, the lists, and the types.
-/

namespace GoGloss.Grammar

open GoGloss.Expr

/-! ## Before and behind a tree -/

/--
The cursor stands in front of `t`, which is followed by `ts`. If there are not as many
levels left as `t` needs, then `deep`. With `inner n` the reader does not run out of
productions before it runs out of levels.
-/
structure Ahead (deep : Prop) (t : Expr) (ts : List Token) (n : Nat) (c : Cursor) : Prop where
  tokens : c.tokens = t.spelling ++ ts
  room : ¬ deep → c.depth + t.need ≤ maxDepth
  levels : maxDepth ≤ c.depth + n

/-- From `c` on the cursor has come to `c'`, in front of `ts` and some levels deeper. -/
structure Reached (ts : List Token) (levels : Nat) (c c' : Cursor) : Prop where
  tokens : c'.tokens = ts
  rest : c'.rest <:+ c.rest
  depth : c'.depth = c.depth + levels

/-- From `c` on, `t` has been read as `x`, and now the cursor is `c'`. -/
structure Behind (t : Expr) (ts : List Token) (levels : Nat) (c : Cursor) (x : Expr)
    (c' : Cursor) : Prop extends Reached ts levels c c' where
  bare : x.bare = t.bare

/-- From `c` on, all of `as` have been read as `xs`, and now the cursor is `c'`. -/
structure BehindAll (as : List Expr) (ts : List Token) (c : Cursor) (xs : List Expr)
    (c' : Cursor) : Prop extends Reached ts 0 c c' where
  bare : xs.map Expr.bare = as.map Expr.bare

/-- Whether a token goes on with the operand before it. -/
def followsOperand : Token → Bool
  | .mark .dot | .mark .lbrack | .mark .lparen | .mark .lbrace => true
  | _ => false

/-- No operand goes on with `ts`, and an operator there binds at most as tightly as `n`. -/
structure LooserThan (n : Nat) (ts : List Token) : Prop where
  operand : followsOperand (ts.headD .eof) = false
  operator : ∀ op, BinaryOp.ofToken? (ts.headD .eof) = some op → op.precedence ≤ n

/-- A closing bracket, a comma, a colon or the end of a line is looser than any operator. -/
theorem looserThan_zero {u : Token} (ts : List Token)
    (hu : u ∈ [.mark .rparen, .mark .rbrack, .mark .comma, .mark .colon, .mark .semicolon]) :
    LooserThan 0 (u :: ts) := by
  simp only [List.mem_cons, List.not_mem_nil, or_false] at hu
  rcases hu with rfl | rfl | rfl | rfl | rfl <;> exact ⟨rfl, by simp [BinaryOp.ofToken?]⟩

variable {deep : Prop} {n levels : Nat} {c c' : Cursor} {t x : Expr} {ts : List Token}

theorem Ahead.head_token {u : Token} {us : List Token} (h : Ahead deep t ts n c)
    (ht : t.spelling = u :: us) : c.head.token = u := by
  simp [Cursor.head_token, h.tokens, ht]

theorem Reached.head_token (h : Reached ts levels c c') : c'.head.token = ts.headD .eof := by
  rw [Cursor.head_token, h.tokens]

theorem Cursor.length_tokens (c : Cursor) : c.tokens.length = c.rest.length := by
  simp [Cursor.tokens]

theorem Reached.length_rest (h : Reached ts levels c c') : ts.length ≤ c'.rest.length :=
  Nat.le_of_eq (by rw [← h.tokens, Cursor.length_tokens])

theorem Reached.here (hc : c.tokens = ts) : Reached ts 0 c c :=
  ⟨hc, List.suffix_refl _, rfl⟩

theorem Reached.entered (hc : c.tokens = ts) : Reached ts 1 c (c.withDepth (c.depth + 1)) :=
  ⟨hc, List.suffix_refl _, rfl⟩

/-- A token more is taken. -/
theorem Reached.advance {u : Token} (h : Reached (u :: ts) levels c c') :
    Reached ts levels c c'.advance :=
  ⟨by simp [h.tokens], Cursor.advance_suffix h.rest, by simp [h.depth]⟩

theorem Reached.trans {ts' : List Token} {levels' : Nat} {c₁ c₂ : Cursor}
    (h : Reached ts levels c c₁) (h' : Reached ts' levels' c₁ c₂) :
    Reached ts' (levels + levels') c c₂ :=
  ⟨h'.tokens, h'.rest.trans h.rest, by rw [h'.depth, h.depth, Nat.add_assoc]⟩

theorem Reached.withExprLevel (h : Reached ts levels c c') (level : Int) :
    Reached ts levels c (c'.withExprLevel level) :=
  ⟨h.tokens, h.rest, h.depth⟩

/-- Where the cursor is, its bench and its expression level do not matter. -/
theorem Reached.congr {c₁ : Cursor} (h : Reached ts levels c c') (hrest : c₁.rest = c'.rest)
    (hdepth : c₁.depth = c'.depth) : Reached ts levels c c₁ :=
  ⟨by rw [Cursor.tokens, hrest]; exact h.tokens, hrest ▸ h.rest, hdepth.trans h.depth⟩

/-- One level further in, there are productions as long as there are levels. -/
theorem reads_nested_inner {α : Type} {p : Parser α} {post : α → Cursor → Prop}
    (hlevels : maxDepth ≤ c.depth + n) (hroom : ¬ deep → c.depth < maxDepth)
    (h : ∀ m, n = m + 1 → maxDepth ≤ c.depth + 1 + m →
      Reads deep p (c.withDepth (c.depth + 1)) fun a c' => post a (c'.withDepth c.depth)) :
    Reads deep (nested p) c post := by
  refine reads_nested hroom fun hdepth => h (n - 1) ?_ ?_
  · omega
  · omega

/-! ## Lists -/

theorem looserThan_moreSpellings {close : Mark} (hclose : close = .rparen ∨ close = .rbrack)
    (as : List Expr) (ts : List Token) :
    LooserThan 0 (moreSpellings as ++ .mark close :: ts) := by
  cases as with
  | nil => exact looserThan_zero ts (by rcases hclose with rfl | rfl <;> simp)
  | cons a as => exact looserThan_zero _ (by simp)

/-- The reader of an item reads `a` wherever no operand goes on behind it. -/
def ReadsItem (deep : Prop) (item : Parser Expr) (d : Nat) (a : Expr) : Prop :=
  ∀ ⦃c ts⦄, c.depth = d → c.tokens = a.spelling ++ ts → LooserThan 0 ts →
    Reads deep item c (Behind a ts 0 c)

/-- The items after the first are read one after the other, up to the closing bracket. -/
theorem reads_moreUntil {item : Parser Expr} {as : List Expr}
    (hitem : ∀ a ∈ as, ReadsItem deep item c.depth a)
    (hstart : ∀ a ∈ as, ∃ u us, a.spelling = u :: us ∧ u ≠ .mark .rbrack)
    (hc : c.tokens = moreSpellings as ++ .mark .rbrack :: ts) :
    Reads deep (moreUntil .rbrack item) c (BehindAll as (.mark .rbrack :: ts) c) := by
  -- every item takes a comma from the clock
  suffices hfor : ∀ (clock : List Lexeme) (items : List Expr) (c₁ : Cursor), c₁.depth = c.depth →
      as.length ≤ clock.length → c₁.tokens = moreSpellings as ++ .mark .rbrack :: ts →
      Reads deep (collectFor (moreRound .rbrack item) clock items) c₁ fun got c' =>
        ∃ xs, got = items.reverse ++ xs ∧ BehindAll as (.mark .rbrack :: ts) c₁ xs c' by
    simp only [moreUntil, collect, reads_bind, reads_get]
    have hclock : as.length ≤ c.rest.length := by
      have hlength := length_le_moreSpellings as
      rw [← Cursor.length_tokens, hc, List.length_append]
      omega
    refine (hfor c.rest [] c rfl hclock hc).mono fun got c₁ hgot => ?_
    obtain ⟨xs, rfl, hxs⟩ := hgot
    exact hxs
  clear hc
  intro clock items c₁ hdepth hclock hc₁
  induction as generalizing clock items c₁ with
  | nil =>
      refine reads_collectFor_stop ?_
      have hhead : c₁.head.token = .mark .rbrack := by simp [Cursor.head_token, hc₁, moreSpellings]
      simp [hhead, Round.goesOn, Round.items]
      exact ⟨.here (by simpa [moreSpellings] using hc₁), rfl⟩
  | cons a as ih =>
      rw [moreSpellings, List.cons_append, List.append_assoc] at hc₁
      have hhead : c₁.head.token = .mark .comma := by simp [Cursor.head_token, hc₁]
      obtain ⟨u, us, hspelling, hu⟩ := hstart a List.mem_cons_self
      have hnext : c₁.advance.head.token ≠ .mark .rbrack := by
        rw [Cursor.head_token, Cursor.tokens_advance, hc₁, hspelling]
        exact hu
      refine reads_collectFor_step (by rintro rfl; simp at hclock) ?_
      simp only [reads_bind, reads_eats, hhead, if_true, reads_isAt, hnext, decide_false,
        Bool.false_eq_true, if_false, reads_pure]
      refine (hitem a List.mem_cons_self (by simpa using hdepth) (by simp [hc₁])
        (looserThan_moreSpellings (.inr rfl) as ts)).mono fun y c₂ hy => ⟨y, rfl, ?_⟩
      have hdepth₂ : c₂.depth = c₁.depth := by simpa using hy.depth
      refine (ih (fun b hb => hitem b (List.mem_cons_of_mem _ hb))
        (fun b hb => hstart b (List.mem_cons_of_mem _ hb)) clock.tail (y :: items) c₂
        (hdepth₂.trans hdepth) ?_ hy.tokens).mono fun got c₃ hgot => ?_
      · rw [List.length_cons] at hclock
        rw [List.length_tail]
        omega
      · obtain ⟨xs, rfl, hxs⟩ := hgot
        have htaken := (Reached.here hc₁).advance.trans hy.toReached
        exact ⟨y :: xs, by simp, htaken.trans hxs.toReached, by simp [hy.bare, hxs.bare]⟩

/-- The bare tree of `t` with indices behind it. -/
def indexed (t : Expr) : List Expr → Expr
  | [i] => .index default t i
  | is => .indexList default t is

theorem bare_index (span : Span) (t i : Expr) :
    (Expr.index span t i).bare = indexed t.bare ([i].map Expr.bare) := by
  rw [Expr.bare]
  rfl

theorem bare_indexList {is : List Expr} (h : 2 ≤ is.length) (span : Span) (t : Expr) :
    (Expr.indexList span t is).bare = indexed t.bare (is.map Expr.bare) := by
  rw [Expr.bare, Expr.bareAll_eq]
  match is, h with
  | _ :: _ :: _, _ => rfl

/-! ## Types -/

/-- In front of something that does not go on with an operand, the type `t` is read. -/
def ReadAsType (deep : Prop) (t : Expr) : Prop :=
  ∀ ⦃n c ts⦄, c.tokens = t.spelling ++ ts → followsOperand (ts.headD .eof) = false →
    (¬ deep → c.depth + t.typeNeed ≤ maxDepth) → maxDepth ≤ c.depth + n →
    Reads deep (typeHere? (inner n)) c fun got c' => ∃ x, got = some x ∧ Behind t ts 0 c x c'

/-- A type on a level of its own. -/
theorem ReadAsType.type (h : ReadAsType deep t) (hc : c.tokens = t.spelling ++ ts)
    (hts : followsOperand (ts.headD .eof) = false)
    (hroom : ¬ deep → c.depth + (t.typeNeed + 1) ≤ maxDepth) (hlevels : maxDepth ≤ c.depth + n) :
    Reads deep (type (inner n)) c (Behind t ts 0 c) := by
  simp only [Grammar.type, reads_bind, Grammar.type?]
  refine reads_nested_inner hlevels (fun hdeep => by have := hroom hdeep; omega) ?_
  rintro m rfl hm
  have hroom' : ¬ deep → (c.withDepth (c.depth + 1)).depth + t.typeNeed ≤ maxDepth := by
    intro hdeep
    have := hroom hdeep
    simp
    omega
  refine (h (c := c.withDepth (c.depth + 1)) hc hts hroom' hm).mono fun got c₁ hgot => ?_
  obtain ⟨x, rfl, hx⟩ := hgot
  exact ⟨⟨by simpa using hx.tokens, by simpa using hx.rest, by simp⟩, hx.bare⟩

theorem ReadAsType.item {d : Nat} (h : ReadAsType deep t)
    (hroom : ¬ deep → d + (t.typeNeed + 1) ≤ maxDepth) (hlevels : maxDepth ≤ d + n) :
    ReadsItem deep (Grammar.type (inner n)) d t := by
  rintro c ts rfl hc hts
  exact h.type hc hts.operand hroom hlevels

/-- A type starts with a name or with a parenthesis. -/
theorem exists_spelling_eq_of_legibleType (h : LegibleType t) :
    ∃ u us, t.spelling = u :: us ∧ ((∃ text, u = .name text) ∨ u = .mark .lparen) := by
  have hname : ∀ {t : Expr}, NamesType t → ∃ text us, t.spelling = .name text :: us := by
    intro t ht
    cases ht with
    | ident => exact ⟨_, _, rfl⟩
    | selector => exact ⟨_, _, rfl⟩
  cases h with
  | name ht =>
      obtain ⟨text, us, hspelling⟩ := hname ht
      exact ⟨_, us, hspelling, .inl ⟨text, rfl⟩⟩
  | index ht | indexList ht =>
      obtain ⟨text, us, hspelling⟩ := hname ht
      exact ⟨_, _, by rw [spelling, hspelling]; rfl, .inl ⟨text, rfl⟩⟩
  | paren => exact ⟨_, _, rfl, .inr rfl⟩

/-- The name of a type is read, and then its arguments if there are any. -/
theorem reads_typeName {inner : Inner} {post : Expr → Cursor → Prop} (ht : NamesType t)
    (hc : c.tokens = t.spelling ++ ts) (hdot : ts.headD .eof ≠ .mark .dot)
    (h : ∀ x c₁, Behind t ts 0 c x c₁ → Reads deep (instantiated inner c.head.start x) c₁ post) :
    Reads deep (typeName inner) c post := by
  cases ht with
  | @ident name =>
      have hhead : c.head.token = .name name.text := by simp [Cursor.head_token, hc, spelling]
      simp only [typeName, reads_bind, reads_here]
      refine reads_name hhead ?_
      have hnext : c.advance.head.token ≠ .mark .dot := by
        simpa [Cursor.head_token, hc, spelling] using hdot
      simp only [reads_makeExpr, reads_eats, Cursor.withBench_head, hnext, if_false,
        Bool.false_eq_true]
      exact h _ _ ⟨(Reached.here hc).advance.congr rfl rfl, rfl⟩
  | @selector _ package member =>
      have hhead : c.head.token = .name package.text := by simp [Cursor.head_token, hc, spelling]
      have hnext : c.advance.head.token = .mark .dot := by simp [Cursor.head_token, hc, spelling]
      have hmember : c.advance.advance.head.token = .name member.text := by
        simp [Cursor.head_token, hc, spelling]
      simp only [typeName, reads_bind, reads_here]
      refine reads_name hhead ?_
      simp only [reads_makeExpr, reads_eats, Cursor.withBench_head, hnext, if_true, reads_bind]
      refine reads_name hmember ?_
      simp only [reads_spanFrom]
      exact h _ _ ⟨(Reached.here hc).advance.advance.advance.congr rfl rfl, rfl⟩

/-- The arguments of a type are read one after the other. -/
theorem reads_instantiated {start : Nat} {a : Expr} {as : List Expr}
    (hargs : ∀ b ∈ a :: as, LegibleType b ∧ ReadAsType deep b)
    (hc : c.tokens = .mark .lbrack :: (spellings (a :: as) ++ .mark .rbrack :: ts))
    (hroom : ∀ b ∈ a :: as, ¬ deep → c.depth + (b.typeNeed + 1) ≤ maxDepth)
    (hlevels : maxDepth ≤ c.depth + n) :
    Reads deep (instantiated (inner n) start x) c fun y c' =>
      y.bare = indexed x.bare ((a :: as).map Expr.bare) ∧ Reached ts 0 c c' := by
  have hhead : c.head.token = .mark .lbrack := by simp [Cursor.head_token, hc]
  have hitem : ∀ b ∈ a :: as, ReadsItem deep (Grammar.type (inner n)) c.depth b :=
    fun b hb => (hargs b hb).2.item (hroom b hb) hlevels
  have hinside : c.advance.tokens = a.spelling ++ (moreSpellings as ++ .mark .rbrack :: ts) := by
    simp [hc, spellings]
  simp only [instantiated, reads_bind, reads_eats, hhead, if_true]
  refine (hitem a List.mem_cons_self (by simp) hinside
    (looserThan_moreSpellings (.inr rfl) as ts)).mono fun y c₁ hy => ?_
  have hdepth : c₁.depth = c.depth := by simpa using hy.depth
  refine (reads_moreUntil (fun b hb => hdepth ▸ hitem b (List.mem_cons_of_mem _ hb)) ?_
    hy.tokens).mono fun ys c₂ hys => ?_
  · intro b hb
    obtain ⟨u, us, hspelling, hu⟩ :=
      exists_spelling_eq_of_legibleType (hargs b (List.mem_cons_of_mem _ hb)).1
    refine ⟨u, us, hspelling, ?_⟩
    rcases hu with ⟨text, rfl⟩ | rfl <;> simp
  simp only [reads_discard]
  refine reads_expect (by simp [hys.head_token]) ?_
  simp only [reads_spanFrom]
  have hreached : Reached ts 0 c c₂.advance :=
    (((Reached.here hc).advance.trans hy.toReached).trans hys.toReached).advance
  have hbare : (y :: ys).map Expr.bare = (a :: as).map Expr.bare := by
    rw [List.map_cons, hy.bare, hys.bare, List.map_cons]
  split
  · refine ⟨?_, hreached.congr rfl rfl⟩
    rw [bare_index, hbare]
  · rename_i hmore
    refine ⟨?_, hreached.congr rfl rfl⟩
    rw [bare_indexList, hbare]
    rw [List.length_cons]
    have := List.length_pos_iff.mpr hmore
    omega

theorem reads_instantiated_none {inner : Inner} {start : Nat} {post : Expr → Cursor → Prop}
    (h : c.head.token ≠ .mark .lbrack) (hpost : post x c) :
    Reads deep (instantiated inner start x) c post := by
  simpa [instantiated, h] using hpost

theorem ne_of_followsOperand {u : Token} (h : followsOperand u = false) :
    u ≠ .mark .dot ∧ u ≠ .mark .lbrack := by
  constructor <;> rintro rfl <;> cases h

theorem typeHere?_of_namesType {inner : Inner} {post : Option Expr → Cursor → Prop}
    (ht : NamesType t) (hc : c.tokens = t.spelling ++ ts)
    (h : Reads deep (typeName inner) c fun x c' => post (some x) c') :
    Reads deep (typeHere? inner) c post := by
  obtain ⟨text, hhead⟩ : ∃ text, c.head.token = .name text := by
    cases ht with
    | ident | selector => exact ⟨_, by rw [Cursor.head_token, hc]; rfl⟩
  simp only [typeHere?, reads_bind, reads_peek, hhead, reads_map]
  exact h

/-- Types made of names are read back. -/
theorem readAsType_of_legibleType (h : LegibleType t) : ReadAsType deep t := by
  induction h with
  | @name t ht =>
      intro n c ts hc hts _ _
      obtain ⟨hdot, hbrack⟩ := ne_of_followsOperand hts
      refine typeHere?_of_namesType ht hc (reads_typeName ht hc hdot fun x c₁ hx => ?_)
      exact reads_instantiated_none (by rwa [hx.head_token]) ⟨x, rfl, hx⟩
  | @index span t arg ht harg ih =>
      intro n c ts hc _ hroom hlevels
      rw [spelling, List.append_assoc] at hc
      refine typeHere?_of_namesType ht hc (reads_typeName ht hc (by simp) fun x c₁ hx => ?_)
      have hdepth : c₁.depth = c.depth := hx.depth
      have hbrack : c₁.tokens =
          .mark .lbrack :: (spellings [arg] ++ .mark .rbrack :: ts) := by
        rw [hx.tokens]
        simp [spellings, moreSpellings]
      refine (reads_instantiated (by simpa using ⟨harg, ih⟩) hbrack ?_ (hdepth ▸ hlevels)).mono
        fun y c₂ hy => ⟨y, rfl, hx.toReached.trans hy.2, ?_⟩
      · simpa [hdepth, typeNeed] using hroom
      · rw [hy.1, hx.bare, bare_index]
  | @indexList span t args ht hlength hargs ih =>
      intro n c ts hc _ hroom hlevels
      rw [spelling, List.append_assoc] at hc
      obtain ⟨a, as, rfl⟩ : ∃ a as, args = a :: as :=
        List.exists_cons_of_ne_nil (by rintro rfl; simp at hlength)
      refine typeHere?_of_namesType ht hc (reads_typeName ht hc (by simp) fun x c₁ hx => ?_)
      have hdepth : c₁.depth = c.depth := hx.depth
      have hbrack : c₁.tokens =
          .mark .lbrack :: (spellings (a :: as) ++ .mark .rbrack :: ts) := by
        rw [hx.tokens]
        simp
      refine (reads_instantiated (fun b hb => ⟨hargs b hb, ih b hb⟩) hbrack ?_
        (hdepth ▸ hlevels)).mono fun y c₂ hy => ⟨y, rfl, hx.toReached.trans hy.2, ?_⟩
      · intro b hb hdeep
        have hle := hroom hdeep
        have hlt := typeNeed_lt_typeNeedAll hb
        rw [typeNeed] at hle
        omega
      · rw [hy.1, hx.bare, bare_indexList hlength]
  | @paren span lparen rparen t ht ih =>
      intro n c ts hc _ hroom hlevels
      have hhead : c.head.token = .mark .lparen := by simp [Cursor.head_token, hc, spelling]
      have hinside : c.advance.tokens = t.spelling ++ .mark .rparen :: ts := by
        simp [hc, spelling]
      simp only [typeHere?, reads_bind, reads_peek, hhead, reads_map, parenType, reads_here,
        reads_take]
      refine (ih.type hinside rfl hroom hlevels).mono fun x c₁ hx => ?_
      refine reads_expect (by simp [hx.head_token]) ?_
      simp only [reads_spanFrom, reads_makeExpr]
      have hclosed := ((Reached.here hc).advance.trans hx.toReached).advance
      exact ⟨_, rfl, hclosed.congr rfl rfl, by simp [Expr.bare, hx.bare]⟩

end GoGloss.Grammar
