import GoGloss.Proofs.ReadBack.Expressions
import GoGloss.Proofs.Readings
import GoGloss.Proofs.Replay.Statements

/-!
# Types read again as operands

Where an expression may stand, a type may stand too, and it means the same: a name with
brackets behind it becomes an index, a star in front of a type becomes one in front of an
operand. So a reader of operands repeats what a reader of types has read, if nothing goes
on behind it: a call, for one, could.
-/

namespace GoGloss.Grammar

variable {k : Cut} {ℓ : LevelRule}

/-! ## Where an operand ends -/

namespace Cursor

/-- The cursor has not gone past the cut, and what is in front of it does not go on with an
operand. -/
structure Ends (k : Cut) (c : Cursor) : Prop where
  bound : k.back.length ≤ c.rest.length
  head : k.back.length < c.rest.length → followsOperand c.head.token = false

/-- Nor does it go on with an operator. -/
structure EndsExpr (k : Cut) (c : Cursor) : Prop extends Ends k c where
  operator : k.back.length < c.rest.length → BinaryOp.ofToken? c.head.token = none

variable {c d : Cursor}

/-- At the cut everything ends. -/
theorem endsExpr_of_length_eq (h : c.rest.length = k.back.length) : c.EndsExpr k :=
  ⟨⟨by omega, by omega⟩, by omega⟩

theorem Ends.followsOperand (h : c.Ends k) (hcd : c.Beside k ℓ d) :
    followsOperand d.head.token = false := by
  by_cases hlt : k.back.length < c.rest.length
  · rw [← (hcd.ahead hlt).1]
    exact h.head hlt
  · rcases Token.closes_iff.mp (hcd.closes (by omega)) with ht | ht | ht <;> rw [ht] <;> rfl

theorem EndsExpr.no_operator {least : Nat} (h : c.EndsExpr k) (hcd : c.Beside k ℓ d) :
    ∀ op, BinaryOp.ofToken? d.head.token = some op → op.precedence < least := by
  intro op hop
  by_cases hlt : k.back.length < c.rest.length
  · simp [← (hcd.ahead hlt).1, h.operator hlt] at hop
  · simp [Token.closes.no_operator (hcd.closes (by omega))] at hop

end Cursor

section Stops

variable {i : Inner} {start least : Nat} {x : Expr} {c' d : Cursor}

theorem reads_extendFor_suffixes (hends : c'.Ends k) (hcd : c'.Beside k ℓ d)
    (clock : List Lexeme) : Reads True (extendFor (postfixRound i start) clock x) d
      (Again k ℓ d x c') := by
  refine reads_extendFor_stop ((reads_postfixRound_stop (hends.followsOperand hcd)).mono ?_)
  rintro _ _ ⟨rfl, rfl⟩
  exact ⟨rfl, rfl, hcd, rfl⟩

/-- Nothing is written after an operand at the end. -/
theorem reads_primary (h : Reads True (operand i) d (Again k ℓ d x c')) (hends : c'.Ends k) :
    Reads True (primary i) d (Again k ℓ d x c') := by
  simp only [primary, reads_bind, reads_here]
  refine h.mono ?_
  rintro _ d₁ ⟨rfl, h₁, hlevel⟩
  rw [reads_extend_iff]
  refine (reads_extendFor_suffixes hends h₁ d₁.rest).mono ?_
  rintro _ d' ⟨rfl, h', hlevel'⟩
  exact ⟨rfl, h', hlevel'.trans hlevel⟩

theorem reads_unary {post : Expr → Cursor → Prop} (hstart : startsPrimary d.head.token)
    (h : Reads True (primary i) d post) : Reads True (unary i) d post := by
  rw [unary, reads_bind, reads_peek]
  split
  · simp_all [startsPrimary]
  · simp_all [startsPrimary]
  · have hnone : UnaryOp.ofToken? d.head.token = none := by
      simpa [startsPrimary] using hstart
    rw [hnone]
    exact h

/-- An operand ends a chain of operators in front of one that binds more loosely. -/
theorem reads_binary (h : Reads True (unary i) d (Again k ℓ d x c'))
    (hends : ∀ d₁, c'.Beside k ℓ d₁ → ∀ op, BinaryOp.ofToken? d₁.head.token = some op →
      op.precedence < least) : Reads True (binary i least) d (Again k ℓ d x c') := by
  simp only [binary, reads_bind, reads_here]
  refine h.mono ?_
  rintro _ d₁ ⟨rfl, h₁, hlevel⟩
  rw [reads_extend_iff]
  refine reads_extendFor_stop ((reads_binaryRound_stop (hends d₁ h₁)).mono ?_)
  rintro _ _ ⟨rfl, rfl⟩
  exact ⟨rfl, rfl, h₁, hlevel⟩

end Stops

theorem type_starts (n : Nat) (c : Cursor) :
    Yields (type (inner n)) c fun _ _ => startsExpr c.head.token := by
  rw [type, yields_bind]
  refine (type?_starts n c).mono fun t c₁ ht => ?_
  cases t with
  | none => exact yields_failExpected
  | some t => exact yields_pure.mpr (ht rfl)

/-- `q` reads what the reader `p` of types has read, if that ends where `E` holds. -/
def Retypes (k : Cut) (E : Cursor → Prop) (p q : Parser Expr) : Prop :=
  ∀ c d, c.Beside k .any d → Yields p c fun x c' => E c' → Reads True q d (Again k .any d x c')

/-! ## Type arguments -/

section Arguments

variable {α : Type} {close : Mark} {item : Parser α} {c : Cursor}

theorem yields_moreRound : Yields (moreRound close item) c fun r c' =>
    (c.head.token ≠ .mark .comma ∧ r = .done ∧ c' = c) ∨
    (c.head.token = .mark .comma ∧ c.advance.head.token = .mark close ∧ r = .done ∧
      c' = c.advance) ∨
    (c.head.token = .mark .comma ∧ c.advance.head.token ≠ .mark close ∧
      ∃ a, item c.advance = .ok a c' ∧ r = .more a) := by
  rw [moreRound, yields_bind, yields_eats]
  refine ⟨fun hcomma => ?_, fun hcomma => ?_⟩
  · rw [if_pos rfl, yields_bind, yields_isAt, yields_ite]
    refine ⟨fun hclose => yields_pure.mpr ?_, fun hclose => ?_⟩
    · exact .inr (.inl ⟨hcomma, of_decide_eq_true hclose, rfl, rfl⟩)
    · rw [yields_bind]
      intro a c' hrun
      refine yields_pure.mpr (.inr (.inr ⟨hcomma, ?_, a, hrun, rfl⟩))
      simpa using hclose
  · rw [if_neg (by simp), yields_pure]
    exact .inl ⟨hcomma, rfl, rfl⟩

/-- A list goes on with a comma or ends where it is. -/
theorem yields_collectFor_more (clock : List Lexeme) (items : List α) :
    Yields (collectFor (moreRound close item) clock items) c fun _ c' =>
      c.head.token = .mark .comma ∨ c' = c := by
  rw [collectFor.eq_def, yields_bind]
  refine yields_moreRound.mono fun r c₁ hround => ?_
  rcases hround with ⟨-, rfl, rfl⟩ | ⟨hcomma, -⟩ | ⟨hcomma, -⟩
  · exact yields_pure.mpr (.inr rfl)
  · exact yields_true.mono fun _ _ _ => .inl hcomma
  · exact yields_true.mono fun _ _ _ => .inl hcomma

end Arguments

section Step

variable {n : Nat} {m : Nat}

/-- In front of a comma or a closing bracket an expression ends. -/
theorem Cursor.endsExpr_of_head {c : Cursor} (hbound : k.back.length ≤ c.rest.length)
    (hhead : c.head.token = .mark .comma ∨ c.head.token = .mark .rbrack ∨
      c.head.token = .mark .rparen) : c.EndsExpr k := by
  rcases hhead with hhead | hhead | hhead
  all_goals exact ⟨⟨hbound, fun _ => by rw [hhead]; rfl⟩, fun _ => by rw [hhead]; rfl⟩

section Reads

variable {α : Type} {close : Mark} {item item' : Parser α} {c c' d : Cursor}

/-- Where a list ends it ends again, whatever its items are read by. -/
theorem again_moreRound_done (hcd : c.Beside k ℓ d)
    (hround : moreRound close item c = .ok .done c') (hlength : k.back.length < c'.rest.length) :
    Reads True (moreRound close item') d (Again k ℓ d .done c') := by
  rcases yields_moreRound _ c' hround with ⟨hcomma, -, rfl⟩ | ⟨hcomma, hclose, -, rfl⟩ |
    ⟨-, -, x, -, hmore⟩
  · rw [(hcd.ahead hlength).1] at hcomma
    simpa [moreRound, hcomma] using ⟨rfl, hcd, rfl⟩
  · rw [Cursor.advance_rest, List.length_tail] at hlength
    have hahead := hcd.ahead (by omega)
    have hnext := hahead.2.ahead (by rw [Cursor.advance_rest, List.length_tail]; omega)
    rw [hahead.1] at hcomma
    rw [hnext.1] at hclose
    simpa [moreRound, hcomma, hclose] using ⟨rfl, hahead.2, rfl⟩
  · cases hmore

theorem again_collectFor_done (hcd : c.Beside k ℓ d)
    (hround : moreRound close item c = .ok .done c') (hlength : k.back.length < c'.rest.length)
    (clock : List Lexeme) (items : List α) :
    Reads True (collectFor (moreRound close item') clock items) d
      (Again k ℓ d items.reverse c') := by
  refine reads_collectFor_stop ((again_moreRound_done hcd hround hlength).mono ?_)
  rintro _ d' ⟨rfl, hagain⟩
  exact ⟨rfl, rfl, hagain⟩

theorem reads_moreRound_more {post : Round α → Cursor → Prop} (h : d.head.token = .mark .comma)
    (hclose : d.advance.head.token ≠ .mark close)
    (hpost : Reads True item d.advance fun a d' => post (.more a) d') :
    Reads True (moreRound close item) d post := by
  simpa [moreRound, h, hclose] using hpost

end Reads

/-- The list of type arguments, read again as a list of indices. -/
theorem retypes_collectFor
    (hexpr : Retypes k (Cursor.EndsExpr k) (type (inner n)) (expr (inner m)))
    (clock clock' : List Lexeme) (items : List Expr) {c d : Cursor} (hcd : c.Beside k .any d)
    (hclock : c.rest.length ≤ k.back.length + clock'.length) :
    Yields (collectFor (moreRound .rbrack (type (inner n))) clock items) c fun xs c' =>
      k.back.length < c'.rest.length → c'.head.token = .mark .rbrack →
      Reads True (collectFor (moreRound .rbrack (expr (inner m))) clock' items) d
        (Again k .any d xs c') := by
  induction clock generalizing clock' items c d with
  | nil =>
      rw [collectFor, yields_bind]
      intro r c₁ hround xs c' hrest hlength hclose
      rcases yields_moreRound r c₁ hround with ⟨-, rfl, -⟩ | ⟨-, -, rfl, -⟩ | ⟨-, -, x, -, rfl⟩
      iterate 2
        · cases hrest
          exact again_collectFor_done hcd hround hlength clock' items
      · cases hrest
  | cons l clock ih =>
      rw [collectFor, yields_bind]
      intro r c₁ hround xs c' hrest hlength hclose
      rcases yields_moreRound r c₁ hround with ⟨-, rfl, -⟩ | ⟨-, -, rfl, -⟩ |
        ⟨hcomma, hmore, x, hitem, rfl⟩
      iterate 2
        · cases hrest
          exact again_collectFor_done hcd hround hlength clock' items
      · -- the argument ends in front of a comma or of the closing bracket
        have hlt := Gains.takes k .any 0 (type (inner m)) c.advance x c₁ hitem
        have hmoves : Repeats k .any 1 (moreRound .rbrack (type (inner n)))
            (moreRound .rbrack (type (inner m))) := by
          unfold moreRound
          infer_instance
        have hle := (hmoves.moves_collectFor clock _ c₁ xs c' hrest).1.length_le
        have hends : c₁.EndsExpr k := by
          refine Cursor.endsExpr_of_head (by omega) ?_
          rcases yields_collectFor_more clock _ xs c' hrest with hnext | rfl
          · exact .inl hnext
          · exact .inr (.inl hclose)
        rw [Cursor.advance_rest, List.length_tail] at hlt
        have hahead := hcd.ahead (by omega)
        have hnext := hahead.2.ahead (by rw [Cursor.advance_rest, List.length_tail]; omega)
        have hticks : 0 < clock'.length := by omega
        refine reads_collectFor_step (List.length_pos_iff.mp hticks) (reads_moreRound_more ?_ ?_ ?_)
        · rw [← hahead.1, hcomma]
        · rw [← hnext.1]
          exact hmore
        · refine (hexpr _ _ hahead.2 x c₁ hitem hends).mono ?_
          rintro _ d₁ ⟨rfl, h₁, hlevel⟩
          refine ⟨_, rfl, (ih clock'.tail _ h₁ ?_ xs c' hrest hlength hclose).mono ?_⟩
          · rw [List.length_tail]
            omega
          · rintro _ d' ⟨rfl, h', hlevel'⟩
            exact ⟨rfl, h', hlevel'.trans hlevel⟩

theorem yields_moreUntil_head {α : Type} {close : Mark} {item : Parser α} {c : Cursor} :
    Yields (moreUntil close item) c fun _ c' => c.head.token = .mark .comma ∨ c' = c :=
  yields_collectFor_more c.rest []

/-- All that stands between the brackets. -/
theorem retypes_subscript
    (hexpr : Retypes k (Cursor.EndsExpr k) (type (inner n)) (expr (inner m)))
    {c c₁ c₂ d : Cursor} (hcd : c.Beside k .any d) {first : Expr} {others : List Expr}
    (hfirst : type (inner n) c = .ok first c₁)
    (hothers : moreUntil .rbrack (type (inner n)) c₁ = .ok others c₂)
    (hlength : k.back.length < c₂.rest.length) (hclose : c₂.head.token = .mark .rbrack) :
    Reads True (subscript (inner m)) d (Again k .any d (.indices first others) c₂) := by
  have hlt := Gains.takes k .any 0 (type (inner m)) c first c₁ hfirst
  have hle := Repeats.length_le (k := k) (ℓ := .any) (e := 1)
    (q := moreUntil .rbrack (type (inner m))) inferInstance hothers
  have hhead : c₁.head.token = .mark .comma ∨ c₁.head.token = .mark .rbrack := by
    rcases yields_moreUntil_head others c₂ hothers with hcomma | rfl
    · exact .inl hcomma
    · exact .inr hclose
  have hends : c₁.EndsExpr k := by
    refine Cursor.endsExpr_of_head (by omega) ?_
    rcases hhead with hhead | hhead
    · exact .inl hhead
    · exact .inr (.inl hhead)
  have hcolon : d.head.token ≠ .mark .colon := by
    rw [← (hcd.ahead (by omega)).1]
    intro heq
    have hstarts := type_starts n c first c₁ hfirst
    simp [heq, startsExpr, UnaryOp.ofToken?] at hstarts
  simp only [subscript, reads_bind, reads_isAt, hcolon, decide_false, Bool.false_eq_true,
    if_false, reads_map]
  refine (hexpr c d hcd first c₁ hfirst hends).mono ?_
  rintro _ d₁ ⟨rfl, h₁, hlevel₁⟩
  have hcolon₁ : d₁.head.token ≠ .mark .colon := by
    rw [← (h₁.ahead (by omega)).1]
    rcases hhead with hhead | hhead <;> rw [hhead] <;> simp
  simp only [hcolon₁, decide_false, reads_bind]
  refine (retypes_collectFor hexpr c₁.rest d₁.rest [] h₁ h₁.clock_le others c₂ hothers hlength
    hclose).mono ?_
  rintro _ d₂ ⟨rfl, h₂, hlevel₂⟩
  exact ⟨rfl, h₂, hlevel₂.trans hlevel₁⟩

/-- Type arguments in brackets are indices in brackets. -/
theorem retypes_brackets
    (hexpr : Retypes k (Cursor.EndsExpr k) (type (inner n)) (expr (inner m)))
    {c c₁ c₂ d : Cursor} (hcd : c.Beside k .any d) {first : Expr} {others : List Expr}
    (hbracket : c.head.token = .mark .lbrack) (hfirst : type (inner n) c.advance = .ok first c₁)
    (hothers : moreUntil .rbrack (type (inner n)) c₁ = .ok others c₂)
    (hclose : c₂.head.token = .mark .rbrack) (hlength : k.back.length < c₂.rest.length)
    {start : Nat} {t x : Expr}
    (hone : others = [] → x = .index (c₂.advance.spanFrom start) t first)
    (hmany : others ≠ [] → x = .indexList (c₂.advance.spanFrom start) t (first :: others)) :
    Reads True (postfixRound (inner m) start t) d (Again k .any d (some x) c₂.advance) := by
  have hlt := Gains.takes k .any 0 (type (inner m)) c.advance first c₁ hfirst
  have hle := Repeats.length_le (k := k) (ℓ := .any) (e := 1)
    (q := moreUntil .rbrack (type (inner m))) inferInstance hothers
  simp only [Cursor.advance_rest, List.length_tail] at hlt
  have hahead := hcd.ahead (by omega)
  have hfloor := hcd.level.floor
  have hinside : c.advance.Beside k .any
      ((d.withDepth (d.depth + 1)).advance.withExprLevel (d.exprLevel + 1)) := by
    refine ⟨hahead.2.rest, hahead.2.lastStop, hfloor.1, ?_⟩
    rw [Cursor.withExprLevel_exprLevel]
    omega
  simp only [postfixRound, reads_bind, reads_peek, ← hahead.1, hbracket]
  refine reads_enter (by simp) fun _ => ?_
  simp only [reads_map, subscripted, reads_bind, reads_discard, reads_take, reads_bracketed]
  refine (retypes_subscript hexpr hinside hfirst hothers hlength hclose).mono ?_
  rintro _ d₂ ⟨rfl, h₂, hlevel⟩
  rw [Cursor.withExprLevel_exprLevel] at hlevel
  have hend := h₂.ahead hlength
  refine reads_expect (by rw [Cursor.withExprLevel_head, ← hend.1, hclose]) ?_
  have hlevel' : d₂.exprLevel - 1 = d.exprLevel := by omega
  have hafter : c₂.advance.Beside k .any (d₂.withExprLevel d.exprLevel).advance :=
    ⟨hend.2.rest, hend.2.lastStop, hend.2.level.floor.1, hfloor.2⟩
  rw [hlevel', reads_spanFrom, Cursor.spanFrom, hafter.lastStop]
  cases others with
  | nil =>
      rw [reads_makeExpr, hone rfl]
      exact ⟨rfl, hafter.withBench _ _, rfl⟩
  | cons other others =>
      rw [reads_makeExpr, hmany (by simp)]
      exact ⟨rfl, hafter.withBench _ _, rfl⟩

/-- What follows the name of a type, read again as what follows an operand. -/
theorem retypes_instantiated
    (hexpr : Retypes k (Cursor.EndsExpr k) (type (inner n)) (expr (inner m)))
    {start : Nat} {t : Expr} {c d : Cursor} (hcd : c.Beside k .any d) (clock : List Lexeme)
    (hclock : c.rest.length ≤ k.back.length + clock.length) :
    Yields (instantiated (inner n) start t) c fun x c' => c'.Ends k →
      Reads True (extendFor (postfixRound (inner m) start) clock t) d (Again k .any d x c') := by
  rw [instantiated, yields_bind, yields_eats]
  refine ⟨fun hbracket => ?_, fun _ => ?_⟩
  · rw [if_pos rfl, yields_bind]
    intro first c₁ hfirst
    rw [yields_bind]
    intro others c₂ hothers
    rw [yields_bind, yields_discard, yields_expect]
    intro hclose
    rw [yields_bind, yields_spanFrom]
    have hstep : ∀ x w, (others = [] → x = .index (c₂.advance.spanFrom start) t first) →
        (others ≠ [] → x = .indexList (c₂.advance.spanFrom start) t (first :: others)) →
        (c₂.advance.withBench w).Ends k →
        Reads True (extendFor (postfixRound (inner m) start) clock t) d
          (Again k .any d x (c₂.advance.withBench w)) := by
      intro x w hone hmany hends
      have hlt := Gains.takes k .any 0 (type (inner m)) c.advance first c₁ hfirst
      have hle := Repeats.length_le (k := k) (ℓ := .any) (e := 1)
        (q := moreUntil .rbrack (type (inner m))) inferInstance hothers
      have hrest := Cursor.rest_ne_nil (c := c₂) (by simp [hclose])
      have hbound : k.back.length ≤ c₂.rest.tail.length := hends.bound
      simp only [Cursor.advance_rest, List.length_tail] at hlt hbound
      have hticks : 0 < clock.length := by omega
      refine reads_extendFor_step (List.length_pos_iff.mp hticks) ?_
      refine (retypes_brackets hexpr hcd hbracket hfirst hothers hclose (by omega) hone
        hmany).mono ?_
      rintro _ d₁ ⟨rfl, h₁, hlevel₁⟩
      have h₁ := h₁.withBench w d₁.bench
      refine ⟨x, rfl, (reads_extendFor_suffixes hends h₁ clock.tail).mono ?_⟩
      rintro _ d₂ ⟨rfl, h₂, hlevel₂⟩
      exact ⟨rfl, h₂, hlevel₂.trans hlevel₁⟩
    cases others with
    | nil => exact yields_makeExpr.mpr (hstep _ _ (fun _ => rfl) (by simp))
    | cons other others => exact yields_makeExpr.mpr (hstep _ _ (by simp) fun _ => rfl)
  · rw [if_neg (by simp), yields_pure]
    exact fun hends => reads_extendFor_suffixes hends hcd clock

/-- The name of another package's member, read again as a selector. -/
theorem retypes_member {c d : Cursor} (hcd : c.Beside k .any d) {member : String}
    (hdot : c.head.token = .mark .dot) (hmember : c.advance.head.token = .name member)
    (hlength : k.back.length + 2 ≤ c.rest.length) (start : Nat) (t : Expr) :
    Reads True (postfixRound (inner m) start t) d (Again k .any d
      (some (.selector (c.advance.advance.spanFrom start) t ⟨member, c.advance.head.span⟩))
      c.advance.advance) := by
  have hahead := hcd.ahead (by omega)
  have hnext := hahead.2.ahead (by rw [Cursor.advance_rest, List.length_tail]; omega)
  simp only [postfixRound, reads_bind, reads_peek, ← hahead.1, hdot]
  refine reads_enter (by simp) fun _ => ?_
  have hname : (d.withDepth (d.depth + 1)).advance.head.token = .name member := by
    rw [← hmember, hnext.1]
    rfl
  simp only [reads_map, selectorOrAssertion, reads_bind, reads_discard, reads_take, reads_peek,
    hname]
  refine reads_name hname ?_
  simp only [reads_spanFrom, reads_makeExpr]
  refine ⟨?_, ⟨hnext.2.rest, hnext.2.lastStop, hnext.2.level⟩, rfl⟩
  change some (Expr.selector (d.advance.advance.spanFrom start) t ⟨member, d.advance.head.span⟩) = _
  rw [Cursor.spanFrom, hnext.2.lastStop, ← hnext.1]
  rfl

/-- A type that is a name. -/
theorem retypes_typeName
    (hexpr : Retypes k (Cursor.EndsExpr k) (type (inner n)) (expr (inner m))) :
    Retypes k (Cursor.Ends k) (typeName (inner n)) (primary (inner m)) := by
  intro c d hcd
  have hmoves : ∀ start t {x} {c₁ c' : Cursor}, instantiated (inner n) start t c₁ = .ok x c' →
      c'.rest.length ≤ c₁.rest.length := fun start t _ _ _ hrun =>
    Repeats.length_le (k := k) (ℓ := .any) (e := 0) (q := instantiated (inner m) start t)
      inferInstance hrun
  simp only [typeName, yields_bind, yields_here]
  rw [yields_name]
  intro text htext
  have hrest := Cursor.rest_ne_nil (c := c) (by simp [htext])
  rw [yields_makeExpr, yields_eats]
  -- the operand is the first name
  have hoperand : ∀ {post : Expr → Cursor → Prop}, k.back.length < c.rest.length →
      (∀ d₁, c.advance.Beside k .any d₁ → d₁.exprLevel = d.exprLevel →
        Reads True (extendFor (postfixRound (inner m) c.head.start) d₁.rest
          (.ident ⟨text, c.head.span⟩)) d₁ post) →
      Reads True (primary (inner m)) d post := by
    intro post hlength hgo
    have hahead := hcd.ahead hlength
    have hhead : d.head.token = .name text := by rw [← hahead.1, htext]
    simp only [primary, operand, reads_bind, reads_here, reads_peek, hhead]
    refine reads_name hhead ?_
    rw [reads_makeExpr, reads_extend_iff, ← hahead.1]
    exact hgo _ (hahead.2.withBench c.advance.bench _) rfl
  refine ⟨fun hdot => ?_, fun _ => ?_⟩
  · rw [if_pos rfl, yields_bind, yields_name]
    intro member hmember
    rw [yields_bind, yields_spanFrom, yields_bind, yields_makeExpr]
    intro x c' hrun hends
    have hdot : c.advance.head.token = .mark .dot := hdot
    have hmember : c.advance.advance.head.token = .name member := hmember
    have hle : c'.rest.length ≤ c.rest.tail.tail.tail.length := hmoves _ _ hrun
    have hbound := hends.bound
    have hrest₂ := Cursor.rest_ne_nil (c := c.advance.advance) (by simp [hmember])
    simp only [Cursor.advance_rest, List.length_tail] at hle hrest₂
    refine hoperand (by omega) fun d₁ h₁ hlevel₁ => ?_
    have hclock := h₁.clock_le
    rw [Cursor.advance_rest, List.length_tail] at hclock
    have hticks : 0 < d₁.rest.length := by omega
    refine reads_extendFor_step (List.length_pos_iff.mp hticks) ?_
    refine (retypes_member h₁ hdot hmember ?_ _ _).mono ?_
    · rw [Cursor.advance_rest, List.length_tail]
      omega
    rintro _ d₂ ⟨rfl, h₂, hlevel₂⟩
    refine ⟨_, rfl, (retypes_instantiated hexpr (c := _) ?_ d₁.rest.tail ?_ x c' hrun
      hends).mono ?_⟩
    · exact h₂.congr rfl rfl rfl
    · have hlength : c.rest.tail.tail.tail.length ≤ k.back.length + d₁.rest.tail.length := by
        simp only [List.length_tail]
        omega
      exact hlength
    · rintro _ d₃ ⟨rfl, h₃, hlevel₃⟩
      exact ⟨rfl, h₃, hlevel₃.trans (hlevel₂.trans hlevel₁)⟩
  · rw [if_neg (by simp)]
    intro x c' hrun hends
    have hle : c'.rest.length ≤ c.rest.tail.length := hmoves _ _ hrun
    have hbound := hends.bound
    rw [List.length_tail] at hle
    refine hoperand (by omega) fun d₁ h₁ hlevel₁ => ?_
    refine (retypes_instantiated hexpr (c := _) ?_ d₁.rest ?_ x c' hrun hends).mono ?_
    · exact h₁.congr rfl rfl rfl
    · exact h₁.clock_le
    · rintro _ d₂ ⟨rfl, h₂, hlevel₂⟩
      exact ⟨rfl, h₂, hlevel₂.trans hlevel₁⟩

/-! ## Other types -/

/-- A token in front of a type is one in front of an operand. -/
theorem retypes_prefixed (node : Span → Span → Expr → Expr) {q : Parser Expr}
    (h : Retypes k (Cursor.Ends k) (type (inner n)) q) : Retypes k (Cursor.Ends k)
      (do let start ← here; let pos ← take; let t ← type (inner n)
          makeExpr (node (← spanFrom start) pos t))
      (do let start ← here; let pos ← take; let x ← q
          makeExpr (node (← spanFrom start) pos x)) := by
  intro c d hcd
  simp only [yields_bind, yields_here, yields_take, yields_spanFrom, yields_makeExpr]
  intro t c₁ hrun hends
  have hlt := Gains.takes k .any 0 (type (inner n)) c.advance t c₁ hrun
  have hbound : k.back.length ≤ c₁.rest.length := hends.bound
  rw [Cursor.advance_rest, List.length_tail] at hlt
  have hahead := hcd.ahead (by omega)
  simp only [reads_bind, reads_here, reads_take, ← hahead.1]
  refine (h _ _ hahead.2 t c₁ hrun ⟨hends.bound, hends.head⟩).mono ?_
  rintro _ d₁ ⟨rfl, h₁, hlevel₁⟩
  rw [reads_spanFrom, reads_makeExpr, Cursor.spanFrom, Cursor.spanFrom, h₁.lastStop]
  exact ⟨rfl, h₁.withBench _ _, hlevel₁⟩

theorem retypes_parenType
    (hexpr : Retypes k (Cursor.EndsExpr k) (type (inner n)) (expr (inner m))) :
    Retypes k (Cursor.Ends k) (parenType (inner n)) (parenExpr (inner m)) := by
  intro c d hcd
  simp only [parenType, yields_bind, yields_here, yields_take, yields_spanFrom, yields_makeExpr,
    yields_expect]
  intro t c₁ hrun hclose hends
  have hlt := Gains.takes k .any 0 (type (inner m)) c.advance t c₁ hrun
  have hrest := Cursor.rest_ne_nil (c := c₁) (by simp [hclose])
  have hbound : k.back.length ≤ c₁.rest.tail.length := hends.bound
  simp only [Cursor.advance_rest, List.length_tail] at hlt hbound
  have hahead := hcd.ahead (by omega)
  have hfloor := hcd.level.floor
  have hinside : c.advance.Beside k .any (d.advance.withExprLevel (d.exprLevel + 1)) := by
    refine ⟨hahead.2.rest, hahead.2.lastStop, hfloor.1, ?_⟩
    rw [Cursor.withExprLevel_exprLevel]
    omega
  simp only [parenExpr, reads_bind, reads_here, reads_take, reads_bracketed, ← hahead.1]
  have hends₁ : c₁.EndsExpr k := Cursor.endsExpr_of_head (by omega) (.inr (.inr hclose))
  refine (hexpr _ _ hinside t c₁ hrun hends₁).mono ?_
  rintro _ d₁ ⟨rfl, h₁, hlevel₁⟩
  rw [Cursor.withExprLevel_exprLevel] at hlevel₁
  have hend := h₁.ahead (by omega)
  refine reads_expect (by rw [Cursor.withExprLevel_head, ← hend.1, hclose]) ?_
  have hlevel : d₁.exprLevel - 1 = d.exprLevel := by omega
  have hafter : c₁.advance.Beside k .any (d₁.withExprLevel d.exprLevel).advance :=
    ⟨hend.2.rest, hend.2.lastStop, hend.2.level.floor.1, hfloor.2⟩
  rw [hlevel, reads_spanFrom, reads_makeExpr, Cursor.spanFrom, Cursor.spanFrom, hafter.lastStop,
    Cursor.withExprLevel_head, ← hend.1]
  exact ⟨rfl, hafter.withBench _ _, rfl⟩

/-- A channel to receive from is told apart by the word behind the arrow. -/
theorem retypes_receiveType :
    Retypes k (Cursor.Ends k) (receiveType (inner n)) (receiveExpr (inner m)) := by
  intro c d hcd
  simp only [receiveType, yields_bind, yields_here, yields_discard, yields_take, yields_expect,
    yields_spanFrom, yields_makeExpr]
  intro hchan t c₁ hrun hends
  have hlt := Gains.takes k .any 0 (type (inner m)) c.advance.advance t c₁ hrun
  have hbound : k.back.length ≤ c₁.rest.length := hends.bound
  simp only [Cursor.advance_rest, List.length_tail] at hlt
  have hahead := hcd.ahead (by omega)
  have hnext := hahead.2.ahead (by rw [Cursor.advance_rest, List.length_tail]; omega)
  have hword : d.advance.head.token = .keyword .chan_ := by rw [← hnext.1, hchan]
  simp only [receiveExpr, reads_bind, reads_here, reads_take, reads_eats, hword, if_true,
    ← hahead.1]
  refine (Repeats.again (e := 0) _ _ hnext.2 t c₁ hrun hbound).mono ?_
  rintro _ d₁ ⟨rfl, h₁, hlevel₁⟩
  rw [reads_spanFrom, reads_makeExpr, Cursor.spanFrom, Cursor.spanFrom, h₁.lastStop]
  exact ⟨rfl, h₁.withBench _ _, hlevel₁⟩

/-- No body follows a function type at the end. -/
theorem retypes_funcType :
    Retypes k (Cursor.Ends k) (funcType (inner n)) (funcTypeOrLit (inner m)) := by
  intro c d hcd t c' hrun hends
  simp only [funcTypeOrLit, reads_bind, reads_here]
  refine (Repeats.again (e := 0) c d hcd t c' hrun hends.bound).mono ?_
  rintro _ d₁ ⟨rfl, h₁, hlevel₁⟩
  have hbrace : d₁.head.token ≠ .mark .lbrace := by
    intro heq
    have hpostfix := hends.followsOperand h₁
    simp [heq, followsOperand] at hpostfix
  simpa [hbrace] using ⟨rfl, h₁, hlevel₁⟩

/-- Other types are types among the operands too. -/
theorem retypes_type? {c c' d : Cursor} (hcd : c.Beside k .any d) {x : Expr}
    (hrun : typeHere? (inner n) c = .ok (some x) c') (hbound : k.back.length ≤ c'.rest.length) :
    Reads True (type? (inner m)) d (Again k .any d (some x) c') := by
  refine reads_nested (by simp) fun _ => ?_
  cases m with
  | zero => exact ⟨trivial, rfl⟩
  | succ m =>
      have hinside := hcd.withDepth c.depth (d.depth + 1)
      have hagain := Repeats.again (p := typeHere? (inner n)) (q := typeHere? (inner m)) (e := 0)
        c _ hinside _ c' hrun hbound
      refine hagain.mono ?_
      rintro _ d₁ ⟨rfl, h₁, hlevel₁⟩
      exact ⟨rfl, h₁.withDepth c'.depth d.depth, hlevel₁⟩

/-- Where an operand is no name, no function and nothing in parentheses, it is a type. -/
theorem retypes_composite {c c' d : Cursor} (hcd : c.Beside k .any d) {x : Expr}
    (hrun : typeHere? (inner n) c = .ok (some x) c') (hends : c'.Ends k)
    (hhead : d.head.token ∈ [.mark .lbrack, .keyword .struct_, .keyword .interface_,
      .keyword .map_, .keyword .chan_]) :
    Reads True (unary (inner m)) d (Again k .any d x c') := by
  have htype := retypes_type? (m := m) hcd hrun hends.bound
  simp only [List.mem_cons, List.not_mem_nil, or_false] at hhead
  rcases hhead with hhead | hhead | hhead | hhead | hhead
  all_goals
    refine reads_unary (by rw [hhead]; rfl) (reads_primary ?_ hends)
    simp only [operand, reads_bind, reads_peek, hhead]
    refine htype.mono ?_
    rintro _ d₁ ⟨rfl, hagain⟩
    exact ⟨rfl, hagain⟩

/-- A type is read again by a reader of operands, if those further in are. -/
theorem retypes_step
    (hunder : Retypes k (Cursor.Ends k) (type (inner n)) (operandUnder (inner m)))
    (hexpr : Retypes k (Cursor.EndsExpr k) (type (inner n)) (expr (inner m))) {c c' d : Cursor}
    (hcd : c.Beside k .any d) {x : Expr} (hrun : typeHere? (inner n) c = .ok (some x) c')
    (hends : c'.Ends k) : Reads True (unary (inner m)) d (Again k .any d x c') := by
  have hlt := GainsSome.takes k .any 0 (typeHere? (inner m)) c _ c' hrun rfl
  have hbound := hends.bound
  have hhead := (hcd.ahead (by omega)).1
  have hstart : ∀ t, c.head.token = t → startsPrimary t → startsPrimary d.head.token := by
    rintro _ rfl hprimary
    rwa [← hhead]
  have hcomposite := retypes_composite (m := m) hcd hrun hends
  have hyields : Yields (typeHere? (inner n)) c fun t c₁ => t = some x → c₁ = c' →
      Reads True (unary (inner m)) d (Again k .any d x c') := by
    rw [typeHere?, yields_bind, yields_peek]
    split
    case h_3 | h_4 | h_5 | h_7 | h_8 =>
      rename_i htoken
      exact yields_true.mono fun _ _ _ _ _ => hcomposite (by rw [← hhead, htoken]; simp)
    · rename_i text htoken
      rw [yields_map]
      rintro _ _ hname ⟨rfl⟩ rfl
      exact reads_unary (hstart _ htoken rfl) (retypes_typeName hexpr c d hcd x _ hname hends)
    · rename_i htoken
      rw [yields_map]
      rintro _ _ hfunc ⟨rfl⟩ rfl
      refine reads_unary (hstart _ htoken rfl) (reads_primary ?_ hends)
      simp only [operand, reads_bind, reads_peek, ← hhead, htoken]
      exact retypes_funcType c d hcd x _ hfunc hends
    · rename_i htoken
      rw [yields_map]
      rintro _ _ hpointer ⟨rfl⟩ rfl
      simp only [unary, reads_bind, reads_peek, ← hhead, htoken]
      exact retypes_prefixed .star hunder c d hcd x _ hpointer hends
    · rename_i htoken
      rw [yields_map]
      rintro _ _ hreceive ⟨rfl⟩ rfl
      simp only [unary, reads_bind, reads_peek, ← hhead, htoken]
      exact retypes_receiveType c d hcd x _ hreceive hends
    · rename_i htoken
      rw [yields_map]
      rintro _ _ hparen ⟨rfl⟩ rfl
      refine reads_unary (hstart _ htoken rfl) (reads_primary ?_ hends)
      have hagain := retypes_parenType hexpr c d hcd x _ hparen hends
      simpa only [operand, reads_bind, reads_peek, ← hhead, htoken] using hagain
    · rw [yields_pure]
      rintro ⟨⟩
  exact hyields _ c' hrun rfl rfl

end Step

/-! ## All types -/

theorem retypes_nested {n : Nat} {r : Parser Expr} {E : Cursor → Prop}
    (hE : ∀ {c : Cursor} {depth}, E (c.withDepth depth) → E c)
    (h : ∀ {c c' d x}, c.Beside k .any d → typeHere? (inner n) c = .ok (some x) c' → E c' →
      Reads True r d (Again k .any d x c')) : Retypes k E (type (inner (n + 1))) (nested r) := by
  intro c d hcd
  rw [type, type?, yields_bind, yields_nested]
  intro _ t c₁ hrun
  cases t with
  | none => exact yields_failExpected
  | some x =>
      refine yields_pure.mpr fun hends => reads_nested (by simp) fun _ => ?_
      refine (h (hcd.withDepth (c.depth + 1) (d.depth + 1)) hrun (hE hends)).mono ?_
      rintro _ d₁ ⟨rfl, h₁, hlevel₁⟩
      exact ⟨rfl, h₁.withDepth _ _, hlevel₁⟩

theorem retypes_zero {E : Cursor → Prop} {q : Parser Expr} : Retypes k E (type (inner 0)) q := by
  intro c d _
  rw [type, type?, yields_bind, yields_nested]
  exact fun _ => yields_failHere

/-- What a reader of types has read, a reader of operands reads again. -/
theorem typeHere?_again (n m : Nat) {c c' d : Cursor} (hcd : c.Beside k .any d) {x : Expr}
    (hrun : typeHere? (inner n) c = .ok (some x) c') (hends : c'.Ends k) :
    Reads True (unary (inner m)) d (Again k .any d x c') := by
  induction n generalizing m c c' d x with
  | zero => exact retypes_step retypes_zero retypes_zero hcd hrun hends
  | succ n ih =>
      refine retypes_step ?_ ?_ hcd hrun hends
      · refine retypes_nested (fun hends => ⟨hends.bound, hends.head⟩) fun h₁ hrun₁ hends₁ => ?_
        cases m with
        | zero => exact ⟨trivial, rfl⟩
        | succ m => exact ih m h₁ hrun₁ hends₁
      · refine retypes_nested (fun hends => ⟨⟨hends.bound, hends.head⟩, hends.operator⟩)
          fun h₁ hrun₁ hends₁ => ?_
        cases m with
        | zero => exact ⟨trivial, rfl⟩
        | succ m => exact reads_binary (ih m h₁ hrun₁ hends₁.toEnds) fun _ => hends₁.no_operator

/-- And so does a reader of expressions. -/
theorem retypes_expr (n m : Nat) :
    Retypes k (Cursor.EndsExpr k) (type (inner n)) (expr (inner m)) := by
  cases n with
  | zero => exact retypes_zero
  | succ n =>
      refine retypes_nested (fun hends => ⟨⟨hends.bound, hends.head⟩, hends.operator⟩)
        fun h₁ hrun₁ hends₁ => ?_
      cases m with
      | zero => exact ⟨trivial, rfl⟩
      | succ m =>
          exact reads_binary (typeHere?_again n m h₁ hrun₁ hends₁.toEnds)
            fun _ => hends₁.no_operator

end GoGloss.Grammar
