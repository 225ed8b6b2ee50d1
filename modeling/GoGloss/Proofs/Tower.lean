import GoGloss.Proofs.Lossless
import GoGloss.Proofs.NestingBound
import GoGloss.Proofs.Reads

/-!
# Towers

An expression as deep as the nesting limit lets it be. A tower of `n` storeys
starts with a function literal that makes the most of two levels,

  `func(...func(a.b)()){}+1`

and every storey puts parentheses around what is there and as many operators
after them as there are levels left on the way out. Reading it enters one level
for the parentheses and gives it back, so all the levels are there again for the
operators of the next storey.

A tower of `n` storeys needs `n + 2` levels, and saying it takes `exprCalls (n + 2)`
calls, which is all there can be: `writeWithin_parsed_iff` says that the bound of
`parsed_calls_le` is met.
-/

namespace GoGloss.Grammar

/-! ## What a tower is -/

/-- The number that all operators of a tower are applied to. -/
def one : Token :=
  .literal .int "1"

/-- `+1`, some number of times. -/
def plusOnes : Nat → List Token
  | 0 => []
  | n + 1 => .mark .plus :: one :: plusOnes n

/-- The tokens of a function literal that takes six calls on two levels. -/
def footing : List Token :=
  [.keyword .func_, .mark .lparen, .mark .ellipsis, .keyword .func_, .mark .lparen, .name "a",
   .mark .dot, .name "b", .mark .rparen, .mark .lparen, .mark .rparen, .mark .rparen,
   .mark .lbrace, .mark .rbrace]

/-- The tokens of a tower of `n` storeys. -/
def towerTokens : Nat → List Token
  | 0 => footing ++ plusOnes 1
  | n + 1 => .mark .lparen :: (towerTokens n ++ .mark .rparen :: plusOnes (n + 2))

/-- `+1`, some number of times, as it is written. -/
def plusOnesText : Nat → List Char
  | 0 => []
  | n + 1 => '+' :: '1' :: plusOnesText n

/-- A tower of `n` storeys as it is written. -/
def towerText : Nat → List Char
  | 0 => "func(...func(a.b)())\x7b\x7d".toList ++ plusOnesText 1
  | n + 1 => '(' :: (towerText n ++ ')' :: plusOnesText (n + 2))

theorem towerText_succ (n : Nat) :
    towerText (n + 1) = '(' :: (towerText n ++ ')' :: plusOnesText (n + 2)) := rfl

/-- The source of a tower of `n` storeys. -/
def tower (n : Nat) : String :=
  String.ofList (towerText n)

/-! ## Its lexemes -/

/-- The kinds of the pieces that some characters are cut into. -/
def pieceKinds (cs : List Char) : List PieceKind :=
  (Piece.cut 0 cs).map Piece.kind

/-- What may stand after a storey: nothing, or the parenthesis that closes the next one. -/
def Closed : List Char → Prop
  | [] => True
  | c :: _ => c = ')'

theorem pieceKinds_plusOne {rest : List Char} (h : Closed rest ∨ rest.head? = some '+') :
    pieceKinds ('+' :: '1' :: rest) =
      .token (.mark .plus) :: .token one :: pieceKinds rest := by
  cases rest with
  | nil => rfl
  | cons c rest =>
      rcases h with rfl | h
      · rfl
      · obtain rfl : c = '+' := by simpa using h
        rfl

theorem pieceKinds_plusOnes (n : Nat) {rest : List Char} (h : Closed rest) :
    pieceKinds (plusOnesText n ++ rest) =
      (plusOnes n).map PieceKind.token ++ pieceKinds rest := by
  induction n with
  | zero => simp [plusOnesText, plusOnes]
  | succ n ih =>
      have hnext : Closed (plusOnesText n ++ rest) ∨ (plusOnesText n ++ rest).head? = some '+' := by
        cases n with
        | zero => exact .inl h
        | succ n => exact .inr rfl
      simp [plusOnesText, plusOnes, pieceKinds_plusOne hnext, ih]

theorem pieceKinds_lparen (rest : List Char) :
    pieceKinds ('(' :: rest) = .token (.mark .lparen) :: pieceKinds rest := rfl

theorem pieceKinds_rparen (rest : List Char) :
    pieceKinds (')' :: rest) = .token (.mark .rparen) :: pieceKinds rest := rfl

theorem pieceKinds_tower (n : Nat) {rest : List Char} (h : Closed rest) :
    pieceKinds (towerText n ++ rest) = (towerTokens n).map PieceKind.token ++ pieceKinds rest := by
  induction n generalizing rest with
  | zero =>
      cases rest with
      | nil => rfl
      | cons c rest =>
          obtain rfl : c = ')' := h
          rfl
  | succ n ih =>
      have hstorey : pieceKinds (towerText n ++ ')' :: (plusOnesText (n + 2) ++ rest)) = _ :=
        ih rfl
      calc pieceKinds (towerText (n + 1) ++ rest)
        _ = pieceKinds ('(' :: (towerText n ++ ')' :: (plusOnesText (n + 2) ++ rest))) := by
            simp [towerText_succ]
        _ = .token (.mark .lparen) :: ((towerTokens n).map PieceKind.token ++
              .token (.mark .rparen) :: ((plusOnes (n + 2)).map PieceKind.token ++
                pieceKinds rest)) := by
            rw [pieceKinds_lparen, hstorey, pieceKinds_rparen, pieceKinds_plusOnes _ h]
        _ = (towerTokens (n + 1)).map PieceKind.token ++ pieceKinds rest := by
            simp [towerTokens]

/-- Pieces that are all tokens become one lexeme each, and a line end if the last one is armed. -/
theorem ofPieces_tokens {ps : List Piece} {ts : List Token} (armed : Bool) (offset : Nat)
    (h : ps.map Piece.kind = ts.map PieceKind.token)
    (hlast : (ts.getLast?.map Token.endsStatement).getD armed = true) :
    ∃ ls last, Lexeme.ofPieces armed offset ps = ls ++ [Lexeme.lineEnd last] ∧
      ls.map Lexeme.token = ts := by
  induction ps generalizing armed offset ts with
  | nil =>
      obtain rfl : ts = [] := by simpa using h.symm
      obtain rfl : armed = true := by simpa using hlast
      exact ⟨[], offset, rfl, rfl⟩
  | cons p ps ih =>
      cases ts with
      | nil => simp at h
      | cons t ts =>
          obtain ⟨hkind, hrest⟩ : p.kind = .token t ∧ ps.map Piece.kind = ts.map PieceKind.token := by
            simpa using h
          have hlast' : (ts.getLast?.map Token.endsStatement).getD t.endsStatement = true := by
            cases hts : ts.getLast? with
            | none => simpa [List.getLast?_cons, hts] using hlast
            | some u => simpa [List.getLast?_cons, hts] using hlast
          obtain ⟨ls, last, hls, htokens⟩ := ih t.endsStatement (offset + byteSize p.text) hrest hlast'
          refine ⟨⟨offset, offset + byteSize p.text, t⟩ :: ls, last, ?_, by simp [htokens]⟩
          have htoken : p.token? offset = some t := by rw [Piece.token?, hkind]
          rw [ofPieces_token ps htoken, hls]
          rfl

theorem getLast?_plusOnes (n : Nat) : (plusOnes (n + 1)).getLast? = some one := by
  induction n with
  | zero => rfl
  | succ n ih =>
      rw [plusOnes, List.getLast?_cons_cons, List.getLast?_cons, ih]
      rfl

theorem getLast?_towerTokens (n : Nat) : (towerTokens n).getLast? = some one := by
  cases n with
  | zero => rfl
  | succ n =>
      rw [towerTokens, List.getLast?_cons, List.getLast?_append, List.getLast?_cons,
        getLast?_plusOnes]
      rfl

/-- The lexemes of a tower, and the end of its only line. -/
theorem tokenize_tower (n : Nat) :
    ∃ ls last, tokenize (tower n) = ls ++ [Lexeme.lineEnd last] ∧
      ls.map Lexeme.token = towerTokens n := by
  have hkinds : (Piece.ofSource (tower n)).map Piece.kind =
      (towerTokens n).map PieceKind.token := by
    have htower := pieceKinds_tower n (show Closed [] from trivial)
    rw [List.append_nil, show pieceKinds [] = [] from rfl, List.append_nil] at htower
    rw [Piece.ofSource, tower, String.toList_ofList]
    exact htower
  refine ofPieces_tokens false 0 hkinds ?_
  rw [getLast?_towerTokens]
  rfl

/-! ## Its tree -/

/-- The tokens ahead. -/
def Cursor.tokens (c : Cursor) : List Token :=
  c.rest.map Lexeme.token

namespace Cursor

variable (c : Cursor) (w : Workbench) (n : Nat) (i : Int)

@[simp] theorem tokens_withBench : (c.withBench w).tokens = c.tokens := rfl
@[simp] theorem tokens_withDepth : (c.withDepth n).tokens = c.tokens := rfl
@[simp] theorem tokens_withExprLevel : (c.withExprLevel i).tokens = c.tokens := rfl

@[simp]
theorem tokens_advance : c.advance.tokens = c.tokens.tail := by
  simp [tokens]

theorem head_token : c.head.token = c.tokens.headD .eof := by
  unfold head tokens
  cases c.rest <;> rfl

theorem second_eq : c.second = c.tokens.tail.headD .eof := by
  unfold second tokens
  rcases c.rest with _ | ⟨l, _ | ⟨k, ls⟩⟩ <;> rfl

variable {c} {c' : Cursor}

/-- Taking a lexeme leaves a rest of what was there. -/
theorem advance_suffix (h : c'.rest <:+ c.rest) : c'.advance.rest <:+ c.rest := by
  simpa using (List.tail_suffix _).trans h

end Cursor

section Runs

variable {inner : Inner} {c : Cursor}

/-- A token that neither goes on with an operand nor is an operator. -/
def Ends (t : Token) : Prop :=
  t = .mark .rparen ∨ t = .mark .semicolon

/-- Nothing follows an operand where an operator or an end does. -/
theorem reads_postfix_stop {start : Nat} {x : Expr} {t : Token} {ts : List Token}
    {post : Expr → Cursor → Prop} (ht : t = .mark .plus ∨ Ends t) (hc : c.tokens = t :: ts)
    (h : post x c) : Reads False (extend (postfixRound inner start) x) c post := by
  rw [reads_extend_iff]
  refine reads_extendFor_stop ?_
  rcases ht with rfl | rfl | rfl <;> simp [postfixRound, Cursor.head_token, hc, h]

/-- The number one as the right operand of a sum. -/
theorem reads_one {t : Token} {ts : List Token} (ht : t = .mark .plus ∨ Ends t)
    (hc : c.tokens = one :: t :: ts) :
    Reads False (binary inner (BinaryOp.add.precedence + 1)) c fun x c' =>
      x.calls = 1 ∧ c'.tokens = t :: ts ∧ c'.rest <:+ c.rest ∧ c'.depth = c.depth := by
  simp [binary, unary, primary, operand, Cursor.head_token, hc, one, UnaryOp.ofToken?]
  refine reads_postfix_stop ht (show _ = t :: ts by simp [hc]) ?_
  rw [reads_extend_iff]
  refine reads_extendFor_stop ?_
  rcases ht with rfl | rfl | rfl <;>
    simp [binaryRound, Cursor.head_token, hc, BinaryOp.ofToken?, Expr.calls, List.tail_suffix]

/-- A round of a sum enters a level for its operator and keeps it. -/
theorem reads_plus {start : Nat} {left : Expr} {t : Token} {ts : List Token}
    (ht : t = .mark .plus ∨ Ends t) (hc : c.tokens = .mark .plus :: one :: t :: ts)
    (hdepth : c.depth < maxDepth) :
    Reads False (binaryRound (Inner.over inner) 1 start left) c fun x c' =>
      ∃ y : Expr, x = some y ∧ y.calls = left.calls + 1 ∧ c'.tokens = t :: ts ∧
        c'.rest <:+ c.rest ∧ c'.depth = c.depth + 1 := by
  have hpos := left.calls_pos
  simp only [binaryRound, reads_bind, reads_peek, Cursor.head_token, hc, List.headD_cons,
    BinaryOp.ofToken?]
  rw [if_neg (by decide)]
  simp only [reads_bind, reads_false_enter, reads_take]
  have hnext : (c.withDepth (c.depth + 1)).advance.tokens = one :: t :: ts := by simp [hc]
  refine ⟨hdepth, (reads_one ht hnext).mono fun right c₁ hgot => ?_⟩
  obtain ⟨hright, htokens, hrest, hd⟩ := hgot
  simp only [reads_spanFrom, reads_makeExpr, reads_pure]
  have hrest' : c₁.rest <:+ c.rest := hrest.trans (Cursor.advance_suffix (List.suffix_refl _))
  refine ⟨_, rfl, ?_, htokens, hrest', by simpa using hd⟩
  simp only [Expr.calls]
  omega

theorem head_plusOnes (k : Nat) {t : Token} (ts : List Token) (ht : Ends t) :
    ∃ u us, plusOnes k ++ t :: ts = u :: us ∧ (u = .mark .plus ∨ Ends u) := by
  cases k with
  | zero => exact ⟨t, ts, rfl, .inr ht⟩
  | succ k => exact ⟨.mark .plus, one :: (plusOnes k ++ t :: ts), rfl, .inl rfl⟩

/-- As many operators as levels are stacked on an operand, one call each. -/
theorem reads_plusOnes {start k : Nat} {x : Expr} {clock : List Lexeme} {t : Token}
    {ts : List Token} (ht : Ends t) (hc : c.tokens = plusOnes k ++ t :: ts)
    (hdepth : c.depth + k ≤ maxDepth) (hclock : k ≤ clock.length) :
    Reads False (extendFor (binaryRound (Inner.over inner) 1 start) clock x) c fun y c' =>
      y.calls = x.calls + k ∧ c'.tokens = t :: ts ∧ c'.rest <:+ c.rest := by
  induction k generalizing x c clock with
  | zero =>
      have hc' : c.tokens = t :: ts := hc
      refine reads_extendFor_stop ?_
      rcases ht with rfl | rfl <;> simp [binaryRound, Cursor.head_token, hc', BinaryOp.ofToken?]
  | succ k ih =>
      obtain ⟨u, us, hus, hu⟩ := head_plusOnes k ts ht
      have hplus : c.tokens = .mark .plus :: one :: u :: us := by
        rw [hc, plusOnes, List.cons_append, List.cons_append, hus]
      refine reads_extendFor_step (by grind) ((reads_plus hu hplus (by omega)).mono
        fun y c₁ hgot => ?_)
      obtain ⟨y', hy, hcalls, htokens, hrest, hd⟩ := hgot
      refine ⟨y', hy, ?_⟩
      refine (ih (htokens.trans hus.symm) (by omega) (by grind)).mono fun z c₂ hgot => ?_
      obtain ⟨hz, htokens₂, hrest₂⟩ := hgot
      exact ⟨by omega, htokens₂, hrest₂.trans hrest⟩

/-! The footing, from the inside out. -/

theorem reads_parameters_nil {ts : List Token}
    (hc : c.tokens = .mark .lparen :: .mark .rparen :: ts) :
    Reads False (parameters inner) c fun fs c' =>
      fs = [] ∧ c'.tokens = ts ∧ c'.rest <:+ c.rest ∧ c'.depth = c.depth := by
  have hrest : c.advance.advance.rest <:+ c.rest :=
    Cursor.advance_suffix (Cursor.advance_suffix (List.suffix_refl _))
  simp only [parameters, reads_bind, reads_discard, reads_false_expect]
  refine ⟨by simp [Cursor.head_token, hc], reads_collect_once ?_⟩
  simpa [Cursor.head_token, hc, Round.goesOn, Round.items, groupParams, bareTypes] using hrest

/-- A list of one type takes the calls of the type. -/
theorem reads_parameters_type {n : Nat} {ts : List Token}
    (hopen : c.head.token = .mark .lparen)
    (hnext : c.advance.head.token ≠ .mark .rparen ∧ c.advance.head.token ≠ .eof)
    (hentry : Reads False (paramEntry inner) c.advance fun e c' => ∃ t span,
      e = .typed none t span ∧ t.calls = n ∧ c'.tokens = .mark .rparen :: ts ∧
        c'.rest <:+ c.rest ∧ c'.depth = c.depth) :
    Reads False (parameters inner) c fun fs c' =>
      Field.callsAll fs = n ∧ c'.tokens = ts ∧ c'.rest <:+ c.rest ∧ c'.depth = c.depth := by
  simp only [parameters, reads_bind, reads_discard, reads_false_expect]
  refine ⟨hopen, reads_collect_once ?_⟩
  simp only [reads_bind, reads_peek]
  split
  · rename_i heof
    exact absurd heof hnext.2
  · rw [if_neg hnext.1]
    simp only [commaRound, reads_bind]
    refine hentry.mono ?_
    rintro e c₁ ⟨t, span, he, ht, htokens, hrest, hd⟩
    subst he
    have hrest' := Cursor.advance_suffix hrest
    simp [Cursor.head_token, htokens, Round.goesOn, Round.items, groupParams, bareTypes,
      ParamEntry.isNamed, ParamEntry.isBare, ParamEntry.unnamedField, Field.callsAll, Field.calls,
      ht, hd]
    simpa using hrest'

/-- `func(a.b)()` as a type: three calls, on no level but its own. -/
theorem reads_inside {ts : List Token}
    (hc : c.tokens = .keyword .func_ :: .mark .lparen :: .name "a" :: .mark .dot :: .name "b" ::
      .mark .rparen :: .mark .lparen :: .mark .rparen :: ts) :
    Reads False (typeHere? inner) c fun x c' =>
      ∃ y : Expr, x = some y ∧ y.calls = 3 ∧ c'.tokens = ts ∧ c'.rest <:+ c.rest ∧
        c'.depth = c.depth := by
  have hentry : Reads False (paramEntry inner) c.advance.advance fun e c' => ∃ t span,
      e = .typed none t span ∧ t.calls = 2 ∧
        c'.tokens = .mark .rparen :: .mark .lparen :: .mark .rparen :: ts ∧
        c'.rest <:+ c.advance.rest ∧ c'.depth = c.advance.depth := by
    have hrest : c.advance.advance.advance.advance.advance.rest <:+ c.advance.rest := by
      iterate 4 refine Cursor.advance_suffix ?_
      exact List.suffix_refl _
    simp [paramEntry, typeName, Cursor.head_token, Cursor.second_eq, hc]
    refine reads_name (by simp [Cursor.head_token, hc]; rfl) ?_
    simp [hc, instantiated]
    refine reads_name (by simp [Cursor.head_token, hc]; rfl) ?_
    simpa [Cursor.head_token, hc, Expr.calls] using hrest
  simp [typeHere?, funcType, signature, Cursor.head_token, hc]
  refine (reads_parameters_type (by simp [Cursor.head_token, hc])
    (by simp [Cursor.head_token, hc]) hentry).mono fun params c₁ hgot => ?_
  obtain ⟨hparams, htokens, hrest, hd⟩ := hgot
  simp [results, Cursor.head_token, htokens]
  refine (reads_parameters_nil htokens).mono ?_
  rintro results c₂ ⟨hresults, htokens₂, hrest₂, hd₂⟩
  have hrest' : c₂.rest <:+ c.rest :=
    hrest₂.trans (hrest.trans (Cursor.advance_suffix (List.suffix_refl _)))
  simp_all [Expr.calls, Field.callsAll]

/-- Before a body there are no results. -/
theorem reads_results_nil (hc : c.head.token = .mark .lbrace) (hdepth : c.depth < maxDepth) :
    Reads False (results (Inner.over inner)) c fun fs c' => fs = [] ∧ c' = c := by
  simp [results, type?, Inner.over, typeHere?, hc, hdepth]
  rfl

theorem reads_block_nil {ts : List Token}
    (hc : c.tokens = .mark .lbrace :: .mark .rbrace :: ts) :
    Reads False (block inner) c fun _ c' =>
      c'.tokens = ts ∧ c'.rest <:+ c.rest ∧ c'.depth = c.depth := by
  have hrest : c.advance.advance.rest <:+ c.rest :=
    Cursor.advance_suffix (Cursor.advance_suffix (List.suffix_refl _))
  simp only [block, stmtList, reads_bind, reads_false_expect]
  refine ⟨by simp [Cursor.head_token, hc], reads_collect_once ?_⟩
  simpa [Cursor.head_token, hc, endsStmtList, Round.goesOn, Round.items] using hrest

/-- The footing takes six calls. -/
theorem reads_footing {ts : List Token} (hc : c.tokens = footing ++ .mark .plus :: ts)
    (hdepth : c.depth < maxDepth) :
    Reads False (funcTypeOrLit (Inner.over inner)) c fun x c' =>
      x.calls = 6 ∧ c'.tokens = .mark .plus :: ts ∧ c'.rest <:+ c.rest ∧ c'.depth = c.depth := by
  simp only [footing, List.cons_append, List.nil_append] at hc
  have hentry : Reads False (paramEntry (Inner.over inner)) c.advance.advance fun e c' => ∃ t span,
      e = .typed none t span ∧ t.calls = 4 ∧
        c'.tokens = .mark .rparen :: .mark .lbrace :: .mark .rbrace :: .mark .plus :: ts ∧
        c'.rest <:+ c.advance.rest ∧ c'.depth = c.advance.depth := by
    simp [paramEntry, paramType, type, type?, Cursor.head_token, hc, hdepth]
    have hinside : (c.advance.advance.advance.withDepth (c.depth + 1)).tokens =
        .keyword .func_ :: .mark .lparen :: .name "a" :: .mark .dot :: .name "b" ::
          .mark .rparen :: .mark .lparen :: .mark .rparen ::
          (.mark .rparen :: .mark .lbrace :: .mark .rbrace :: .mark .plus :: ts) := by
      simp [hc]
    refine (reads_inside hinside).mono fun x c₁ hgot => ?_
    obtain ⟨y, hx, hy, htokens, hrest, hd⟩ := hgot
    subst hx
    have hrest' : c₁.rest <:+ c.advance.rest := by
      refine hrest.trans ?_
      iterate 2 refine Cursor.advance_suffix ?_
      exact List.suffix_refl _
    simpa [Expr.calls, Expr.callsOption, hy, htokens] using hrest'
  simp [funcTypeOrLit, funcType, signature, Cursor.head_token, hc]
  refine (reads_parameters_type (by simp [Cursor.head_token, hc])
    (by simp [Cursor.head_token, hc]) hentry).mono fun params c₁ hgot => ?_
  obtain ⟨hparams, htokens, hrest, hd⟩ := hgot
  have hdepth₁ : c₁.depth < maxDepth := by simpa [hd] using hdepth
  refine (reads_results_nil (by simp [Cursor.head_token, htokens]) hdepth₁).mono
    fun results c₂ hgot => ?_
  obtain ⟨hresults, hc₂⟩ := hgot
  subst hresults hc₂
  simp [htokens]
  refine (reads_block_nil (show _ = _ :: _ :: (.mark .plus :: ts) by simpa using htokens)).mono ?_
  rintro b c₂ ⟨htokens₂, hrest₂, hd₂⟩
  have hrest' : c₂.rest <:+ c.rest :=
    hrest₂.trans (hrest.trans (Cursor.advance_suffix (List.suffix_refl _)))
  simp_all [Expr.calls, Field.callsAll]

theorem length_plusOnes (k : Nat) : (plusOnes k).length = 2 * k := by
  induction k with
  | zero => rfl
  | succ k ih =>
      simp only [plusOnes, List.length_cons, ih]
      omega

/-- An operand and the operators after it: the operand gives its levels back, so the operators
have all that are left. -/
theorem reads_storey {k calls : Nat} {t : Token} {ts : List Token} (ht : Ends t)
    (hhead : c.head.token = .mark .lparen ∨ c.head.token = .keyword .func_)
    (hoperand : Reads False (operand (Inner.over inner)) (c.withDepth (c.depth + 1)) fun x c' =>
      x.calls = calls ∧ c'.tokens = plusOnes k ++ t :: ts ∧ c'.rest <:+ c.rest ∧
        c'.depth = c.depth + 1)
    (hdepth : c.depth + k < maxDepth) :
    Reads False (expr (Inner.over (Inner.over inner))) c fun x c' =>
      x.calls = calls + k ∧ c'.tokens = t :: ts ∧ c'.rest <:+ c.rest ∧ c'.depth = c.depth := by
  obtain ⟨u, us, hus, hu⟩ := head_plusOnes k ts ht
  have hprimary : Reads False (primary (Inner.over inner)) (c.withDepth (c.depth + 1)) fun x c' =>
      x.calls = calls ∧ c'.tokens = plusOnes k ++ t :: ts ∧ c'.rest <:+ c.rest ∧
        c'.depth = c.depth + 1 := by
    simp only [primary, reads_bind, reads_here]
    refine hoperand.mono fun x c₁ hgot => ?_
    obtain ⟨hx, htokens, hrest, hd⟩ := hgot
    exact reads_postfix_stop hu (htokens.trans hus) ⟨hx, htokens, hrest, hd⟩
  have hunary : Reads False (unary (Inner.over inner)) (c.withDepth (c.depth + 1)) fun x c' =>
      x.calls = calls ∧ c'.tokens = plusOnes k ++ t :: ts ∧ c'.rest <:+ c.rest ∧
        c'.depth = c.depth + 1 := by
    rcases hhead with hhead | hhead <;> simpa [unary, hhead, UnaryOp.ofToken?] using hprimary
  simp only [expr, reads_false_nested]
  refine ⟨by omega, ?_⟩
  change Reads False (binary (Inner.over inner) 1) _ _
  simp only [binary, reads_bind, reads_here, reads_extend_iff]
  refine hunary.mono fun x c₁ hgot => ?_
  obtain ⟨hx, htokens, hrest, hd⟩ := hgot
  have hclock : k ≤ c₁.rest.length := by
    have hlength := congrArg List.length htokens
    simp only [Cursor.tokens, List.length_map, List.length_append, length_plusOnes] at hlength
    omega
  refine (reads_plusOnes ht htokens (by omega) hclock).mono ?_
  rintro y c₂ ⟨hy, htokens₂, hrest₂⟩
  exact ⟨by omega, htokens₂, hrest₂.trans hrest, rfl⟩

theorem exprCalls_storey (n : Nat) : exprCalls (n + 3) = exprCalls (n + 2) + 1 + (n + 2) := by
  rw [exprCalls_succ, operandCalls, paramCalls, exprCalls_eq]
  have hthree : 3 ≤ typeCalls (n + 2) := three_le_typeCalls (n + 1)
  omega

/-- A tower of `n` storeys is read on `n + 2` levels, and takes all the calls that those allow. -/
theorem reads_tower {n m : Nat} {t : Token} {ts : List Token} (ht : Ends t) (hm : n + 2 ≤ m)
    (hc : c.tokens = towerTokens n ++ t :: ts) (hdepth : c.depth + n + 2 ≤ maxDepth) :
    Reads False (expr (Grammar.inner m)) c fun x c' =>
      x.calls = exprCalls (n + 2) ∧ c'.tokens = t :: ts ∧ c'.rest <:+ c.rest ∧
        c'.depth = c.depth := by
  obtain ⟨m, rfl⟩ : ∃ k, m = k + 2 := ⟨m - 2, by omega⟩
  induction n generalizing c m t ts with
  | zero =>
      have hhead : c.head.token = .keyword .func_ := by
        simp [Cursor.head_token, hc, towerTokens, footing]
      have htokens : (c.withDepth (c.depth + 1)).tokens =
          footing ++ .mark .plus :: (one :: t :: ts) := by
        simp [hc, towerTokens, plusOnes]
      refine reads_storey (k := 1) ht (.inr hhead) ?_ (by omega)
      simpa [operand, hhead, plusOnes] using reads_footing htokens (by simpa using by omega)
  | succ n ih =>
      have hhead : c.head.token = .mark .lparen := by
        simp [Cursor.head_token, hc, towerTokens]
      rw [exprCalls_storey]
      refine reads_storey ht (.inl hhead) ?_ (by omega)
      obtain ⟨m, rfl⟩ : ∃ k, m = k + 1 := ⟨m - 1, by omega⟩
      simp [operand, hhead, parenExpr]
      have hstorey : (((c.withDepth (c.depth + 1)).advance).withExprLevel (c.exprLevel + 1)).tokens
          = towerTokens n ++ .mark .rparen :: (plusOnes (n + 2) ++ t :: ts) := by
        simp [hc, towerTokens]
      refine (ih (.inl rfl) hstorey (by simpa using by omega) m (by omega)).mono fun x c₁ hgot => ?_
      obtain ⟨hx, htokens, hrest, hd⟩ := hgot
      have hrest' : c₁.advance.rest <:+ c.rest :=
        Cursor.advance_suffix (hrest.trans (Cursor.advance_suffix (List.suffix_refl _)))
      refine ⟨by simp [Cursor.head_token, htokens], ?_, by simp [htokens], by simpa using hrest',
        by simpa using hd⟩
      simp [Expr.calls, hx]

end Runs

theorem not_illegal_of_mem_plusOnes {n : Nat} {t : Token} (ht : t ∈ plusOnes n)
    (flaw : Flaw) : t ≠ .illegal flaw := by
  induction n with
  | zero => simp [plusOnes] at ht
  | succ n ih =>
      simp only [plusOnes, List.mem_cons] at ht
      rcases ht with rfl | rfl | ht
      · simp
      · simp [one]
      · exact ih ht

theorem not_illegal_of_mem_towerTokens {n : Nat} {t : Token} (ht : t ∈ towerTokens n)
    (flaw : Flaw) : t ≠ .illegal flaw := by
  induction n with
  | zero =>
      rcases List.mem_append.1 ht with ht | ht
      · rintro rfl
        simp [footing] at ht
      · exact not_illegal_of_mem_plusOnes ht flaw
  | succ n ih =>
      simp only [towerTokens, List.mem_cons, List.mem_append] at ht
      rcases ht with rfl | ht | rfl | ht
      · simp
      · exact ih ht
      · simp
      · exact not_illegal_of_mem_plusOnes ht flaw

theorem lexicalDiagnostics_tower (n : Nat) : lexicalDiagnostics (tokenize (tower n)) = [] := by
  obtain ⟨ls, last, htokenize, htokens⟩ := tokenize_tower n
  rw [lexicalDiagnostics, List.filterMap_eq_nil_iff, htokenize]
  intro l hl
  rcases List.mem_append.1 hl with hl | hl
  · have hlegal := not_illegal_of_mem_towerTokens
      (htokens ▸ List.mem_map_of_mem hl : l.token ∈ towerTokens n)
    unfold Lexeme.diagnostic?
    split
    · rename_i flaw hflaw
      exact absurd hflaw (hlegal flaw)
    · rfl
  · obtain rfl := List.mem_singleton.1 hl
    rfl

/-- A tower that the levels are enough for is accepted, and takes all the calls they allow. -/
theorem parseExpr_tower {n : Nat} (hn : n + 2 ≤ maxDepth) :
    ∃ f, parseExpr (tower n) = .ok f ∧ f.root.calls = exprCalls (n + 2) := by
  obtain ⟨ls, last, htokenize, htokens⟩ := tokenize_tower n
  have hrun : Reads False wholeExpr
      (Cursor.start (tokenize (tower n)) (tower n).utf8ByteSize) fun x _ =>
        x.calls = exprCalls (n + 2) := by
    have hc : (Cursor.start (tokenize (tower n)) (tower n).utf8ByteSize).tokens =
        towerTokens n ++ [.mark .semicolon] := by
      simp [Cursor.tokens, Cursor.start, htokenize, htokens, Lexeme.lineEnd]
    simp only [wholeExpr, reads_bind, reads_get]
    refine (reads_tower (.inr rfl) hn hc (by simpa [Cursor.start] using hn)).mono
      fun x c ⟨hx, hend, hrest, _⟩ => ?_
    have hlast : c.rest = [Lexeme.lineEnd last] := by
      obtain ⟨l, hl⟩ := List.length_eq_one_iff.1
        (by simpa [Cursor.tokens] using congrArg List.length hend : c.rest.length = 1)
      obtain ⟨before, hbefore⟩ := hrest
      have hbefore' : before ++ [l] = ls ++ [Lexeme.lineEnd last] := by
        rw [← hl, hbefore, ← htokenize]
        rfl
      rw [hl, (List.append_inj' hbefore' rfl).2]
    simp [Cursor.head, hlast, isLineEnd_lineEnd, hx]
  exact (hrun.read (lexicalDiagnostics_tower n)).resolve_right And.left

/-! ## The bound is met -/

/-- **How deep saying a source goes.** A number of calls is enough to say whatever is accepted if
and only if it is at least that of `parsed_calls_le`: a tower on all the levels there are takes
that many. -/
theorem writeWithin_parsed_iff (k : Nat) :
    (∀ src,
      (∀ f, parseExpr src = .ok f → f.root.writeWithin k "" = some f.root.english) ∧
      (∀ f, parseDecl src = .ok f → f.root.writeWithin k "" = some f.root.english) ∧
      (∀ f, parseStmt src = .ok f → f.root.writeWithin k "" = some f.root.english)) ↔
    32900 ≤ k := by
  constructor
  · intro h
    obtain ⟨f, hf, hcalls⟩ := parseExpr_tower (n := maxDepth - 2) (by decide)
    have hle := Expr.writeWithin_eq_some_iff.1 ((h (tower (maxDepth - 2))).1 f hf)
    rw [hcalls, show maxDepth - 2 + 2 = maxDepth from rfl, exprCalls_maxDepth] at hle
    exact hle
  · intro hk src
    obtain ⟨hexpr, hdecl, hstmt⟩ := parsed_calls_le src
    exact ⟨fun f hf => Expr.writeWithin_eq_some_iff.2 (Nat.le_trans (hexpr f hf) hk),
      fun f hf => Decl.writeWithin_eq_some_iff.2 (Nat.le_trans (hdecl f hf) hk),
      fun f hf => Stmt.writeWithin_eq_some_iff.2 (Nat.le_trans (hstmt f hf) hk)⟩

/-- Three calls for each level are not enough: thirty-seven storeys take 784. -/
theorem writeWithin_tower_ne :
    ∃ f, parseExpr (tower 37) = .ok f ∧
      f.root.writeWithin (3 * maxDepth) "" ≠ some f.root.english := by
  obtain ⟨f, hf, hcalls⟩ := parseExpr_tower (n := 37) (by decide)
  refine ⟨f, hf, fun hsaid => ?_⟩
  have hle := Expr.writeWithin_eq_some_iff.1 hsaid
  rw [hcalls, exprCalls_eq] at hle
  exact absurd hle (by decide +kernel)

end GoGloss.Grammar
