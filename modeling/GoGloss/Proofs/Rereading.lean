import GoGloss.Proofs.Origins
import GoGloss.Proofs.Rereading.Slices
import GoGloss.Proofs.TypeAsParameter

/-!
# Expressions read by themselves

The source under an expression is that expression. In its place it may have been read as a
type, in the header of a statement or further in; by itself it is read as an expression,
and the same tree comes out, up to its places.

Each way in which an expression can have come about (`Origin`) is gone through once more,
by the reader of expressions and in front of the end of a line.
-/

namespace GoGloss

namespace Grammar

variable {k : Cut} {ℓ : LevelRule} {n m : Nat}

/-! ## Types and unions -/

/-- A type is read again as an operand. -/
theorem retypes_unary (n m : Nat) :
    Retypes k (Cursor.Ends k) (type (inner n)) (unary (inner m)) := by
  cases n with
  | zero => exact retypes_zero
  | succ n =>
      intro c d hcd
      rw [type, type?, yields_bind, yields_nested]
      intro _ t c₁ hrun
      cases t with
      | none => exact yields_failExpected
      | some x =>
          refine yields_pure.mpr fun hends => ?_
          have hinside := hcd.withDepth (c.depth + 1) d.depth
          refine (typeHere?_again n m hinside hrun ⟨hends.bound, hends.head⟩).mono ?_
          rintro _ d₁ ⟨rfl, h₁, hlevel₁⟩
          exact ⟨rfl, h₁.withDepth c.depth d₁.depth, hlevel₁⟩

theorem retypes_operandUnder (n m : Nat) :
    Retypes k (Cursor.Ends k) (type (inner n)) (operandUnder (inner m)) := by
  cases n with
  | zero => exact retypes_zero
  | succ n =>
      refine retypes_nested (fun hends => ⟨hends.bound, hends.head⟩) fun h₁ hrun₁ hends₁ => ?_
      cases m with
      | zero => exact ⟨trivial, rfl⟩
      | succ m => exact typeHere?_again n m h₁ hrun₁ hends₁

/-- A term of a union is an operand, perhaps with an operator in front. -/
theorem retypes_typeTerm :
    Retypes k (Cursor.Ends k) (typeTerm (inner n)) (unary (inner m)) := by
  intro c d hcd x c' hrun hends
  have hlt := Gains.takes k .any 1 (typeTerm (inner m)) c x c' hrun
  have hbound := hends.bound
  have hhead := (hcd.ahead (by omega)).1
  suffices hyields : Yields (typeTerm (inner n)) c fun x c' => c'.Ends k →
      Reads True (unary (inner m)) d (Again k .any d x c') from hyields x c' hrun hends
  simp only [typeTerm, yields_bind, yields_here, yields_eat]
  refine ⟨fun htilde => ?_, fun _ => retypes_unary n m c d hcd⟩
  have hprefixed := retypes_prefixed (.unary · .tilde) (retypes_operandUnder n m) c d hcd
  simp only [yields_bind, yields_here, yields_take] at hprefixed
  simp only [unary, reads_bind, reads_peek, ← hhead, htilde]
  exact hprefixed

/-- In front of the cut a union goes on. -/
def Cursor.EndsTerm (k : Cut) (c : Cursor) : Prop :=
  k.back.length ≤ c.rest.length ∧
    (k.back.length < c.rest.length → c.head.token = .mark .pipe)

theorem Cursor.EndsTerm.ends {c : Cursor} (h : c.EndsTerm k) : c.Ends k :=
  ⟨h.1, fun hlt => by rw [h.2 hlt]; rfl⟩

theorem Cursor.EndsTerm.loose {c d : Cursor} (h : c.EndsTerm k) (hcd : c.Beside k ℓ d) :
    ∀ op, BinaryOp.ofToken? d.head.token = some op →
      op.precedence < BinaryOp.or.precedence + 1 := by
  intro op hop
  by_cases hlt : k.back.length < c.rest.length
  · rw [← (hcd.ahead hlt).1, h.2 hlt] at hop
    cases hop
    decide
  · simp [Token.closes.no_operator (hcd.closes (by omega))] at hop

/-- One more term of a union is one more operand of an operator. -/
theorem rerun_union (start : Nat) (level : Int) :
    Rerun k .any level (Cursor.EndsTerm k) (unionRound (inner n) start)
      (binaryRound (inner m) 1 start) where
  bound := And.left
  takes {y _ _ _} hrun := GainsSome.takes k .any 1 (unionRound (inner m) start y) _ _ _ hrun rfl
  start {y z c c'} hrun hends := by
    have htakes := GainsSome.takes k .any 1 (unionRound (inner m) start y) _ _ _ hrun rfl
    have hpipe : Yields (unionRound (inner n) start y) c fun z _ =>
        z.isSome → c.head.token = .mark .pipe := by
      rw [unionRound, yields_bind, yields_isAt, yields_ite, decide_eq_true_eq]
      exact ⟨fun hpipe => yields_true.mono fun _ _ _ _ => hpipe, fun _ => by simp⟩
    exact ⟨by have := hends.1; omega, fun _ => hpipe _ c' hrun rfl⟩
  again {y z c c' d} hcd hlevel hrun hends := by
    suffices hyields : Yields (unionRound (inner n) start y) c fun z c' =>
        c'.EndsTerm k → z.isSome → Reads True (binaryRound (inner m) 1 start y) d (Again k .any d z c') from
      hyields _ c' hrun hends rfl
    simp only [unionRound, yields_bind, yields_isAt, yields_ite, decide_eq_true_eq, yields_enter,
      yields_take, yields_spanFrom, yields_makeExpr, yields_pure]
    refine ⟨fun hpipe _ right c₁ hright hends _ => ?_, fun _ => by simp⟩
    have hlt := Gains.takes k .any 1 (typeTerm (inner m)) _ right c₁ hright
    have hbound : k.back.length ≤ c₁.rest.length := hends.1
    simp only [Cursor.advance_rest, Cursor.withDepth_rest, List.length_tail] at hlt
    have hahead := hcd.ahead (by omega)
    have hright : Reads True ((inner m).binary (BinaryOp.or.precedence + 1))
        (d.withDepth (d.depth + 1)).advance (Again k .any d.advance right c₁) := by
      cases m with
      | zero => exact ⟨trivial, rfl⟩
      | succ m =>
          have hinside := hahead.2.withDepth (c.depth + 1) (d.depth + 1)
          refine reads_binary (retypes_typeTerm _ _ hinside right c₁ hright ?_) ?_
          · exact Cursor.EndsTerm.ends hends
          · exact fun _ => Cursor.EndsTerm.loose hends
    have hop : BinaryOp.ofToken? (.mark .pipe) = some .or := rfl
    simp only [binaryRound, reads_bind, reads_peek, ← hahead.1, hpipe, hop]
    rw [if_neg (by decide), reads_bind]
    refine reads_enter (by simp) fun _ => ?_
    rw [reads_bind, reads_take, reads_bind]
    refine hright.mono ?_
    rintro _ d₁ ⟨rfl, h₁, hlevel₁⟩
    simp only [reads_bind, reads_spanFrom, reads_makeExpr, reads_pure, Cursor.spanFrom, h₁.lastStop]
    refine ⟨?_, h₁.withBench _ _, hlevel₁⟩
    rw [Cursor.withDepth_head, Cursor.withDepth_head, hahead.1]

/-! ## All expressions -/

/-- What has grown by some rounds grows so again, and not beyond. -/
theorem Grown.again {round round' : Expr → Parser (Option Expr)} {q : Parser Expr}
    {E : Cursor → Prop} {x y : Expr} {c c' d : Cursor} (hgrown : Grown round x c y c')
    (hrounds : Rerun k ℓ d.exprLevel E round round') (hE : E c')
    (h : Reads True q d (Again k ℓ d x c))
    (hstop : ∀ d', c'.Beside k ℓ d' → Reads True (round' y) d' fun b d₁ => b = none ∧ d₁ = d') :
    Reads True (q >>= extend round') d (Again k ℓ d y c') := by
  rw [reads_bind]
  refine h.mono ?_
  rintro _ d₁ ⟨rfl, h₁, hlevel₁⟩
  rw [reads_extend_iff]
  refine hgrown.rerun hrounds hE h₁ hlevel₁ (fun clock d₂ h₂ hlevel₂ _ => ?_) d₁.rest h₁.clock_le
  refine reads_extendFor_stop ((hstop d₂ h₂).mono ?_)
  rintro _ _ ⟨rfl, rfl⟩
  exact ⟨rfl, rfl, h₂, hlevel₂⟩

theorem Grown.length_le {round : Expr → Parser (Option Expr)} {x y : Expr} {c c' : Cursor}
    (h : Grown round x c y c')
    (htakes : ∀ {y z c c'}, round y c = .ok (some z) c' → c'.rest.length < c.rest.length) :
    c'.rest.length ≤ c.rest.length := by
  induction h with
  | refl => exact Nat.le_refl _
  | step _ hround ih => exact Nat.le_trans (Nat.le_of_lt (htakes hround)) ih

/-- An expression has at least one token. -/
theorem Origin.takes {c c' : Cursor} {x : Expr} (h : Origin c x c') :
    c'.rest.length < c.rest.length := by
  let k : Cut := ⟨[], [], by simp⟩
  cases h with
  | @type n _ _ hrun => exact GainsSome.takes k .any 0 (typeHere? (inner n)) c _ c' hrun rfl
  | @union n t _ c₁ _ hrun hgrown =>
      have hle := hgrown.length_le (rerun_union (k := k) (m := n) c.head.start 0).takes
      exact Nat.lt_of_le_of_lt hle (Gains.takes k .any 1 (typeTerm (inner n)) c t c₁ hrun)
  | @operand n z _ c₁ _ _ hrun hgrown =>
      have hle := hgrown.length_le (rerun_suffixes (inner_repeats (k := k) n n) _ 0).takes
      exact Nat.lt_of_le_of_lt hle (Gains.takes k .any 0 (Grammar.operand (inner n)) c z c₁ hrun)
  | @operator n least z _ c₁ _ hrun hgrown =>
      have hle := hgrown.length_le
        (rerun_binary (inner_repeats (k := k) n n) (fun _ => id) _ 0).takes
      exact Nat.lt_of_le_of_lt hle (Rises.takes k (unary (inner n)) c z c₁ hrun)

/-- An expression with an origin is read again as an expression, in front of the cut. -/
theorem Origin.again {c c' d : Cursor} {x : Expr} (h : Origin c x c')
    (hcd : c.Beside k .rising d) (hend : c'.rest.length = k.back.length) (m : Nat) :
    Reads True (binary (inner m) 1) d fun y d' => y = x ∧ d'.rest = k.other := by
  have hends := Cursor.endsExpr_of_length_eq hend
  have hany : c.Beside k .any d := hcd.relevel hcd.level.floor
  have hrest : ∀ {ℓ}, Reads True (binary (inner m) 1) d (Again k ℓ d x c') →
      Reads True (binary (inner m) 1) d fun y d' => y = x ∧ d'.rest = k.other := by
    intro ℓ hagain
    refine hagain.mono ?_
    rintro _ d' ⟨rfl, h', -⟩
    obtain ⟨left, hleft, hother⟩ := h'.rest
    obtain rfl : left = [] := List.eq_nil_of_length_eq_zero (by simpa [hleft] using hend)
    exact ⟨rfl, hother⟩
  have hhead : c.head = d.head := (hcd.ahead (hend ▸ h.takes)).1
  cases h with
  | type hrun =>
      refine hrest (reads_binary (typeHere?_again _ m hany hrun hends.toEnds) ?_)
      exact fun _ => hends.no_operator
  | @union n t _ c₁ _ hrun hgrown =>
      have hE : c'.EndsTerm k := ⟨hends.bound, by omega⟩
      have hrounds := rerun_union (k := k) (n := n) (m := m) c.head.start d.exprLevel
      have hterm := retypes_typeTerm (m := m) c d hany t c₁ hrun (hgrown.start hrounds hE).ends
      refine hrest (ℓ := .any) ?_
      rw [binary, reads_bind, reads_here, ← hhead]
      refine hgrown.again hrounds hE hterm fun d' h' => ?_
      exact reads_binaryRound_stop (hends.no_operator h')
  | @operand n z _ c₁ _ hstart hrun hgrown =>
      have hrounds := rerun_suffixes (inner_repeats (k := k) n m) c.head.start d.exprLevel
      have hoperand := Repeats.again (q := Grammar.operand (inner m)) (e := 0) c d hcd z c₁ hrun
        (hgrown.start hrounds hends.bound)
      have hprimary : Reads True (primary (inner m)) d (Again k .rising d x c') := by
        rw [primary, reads_bind, reads_here, ← hhead]
        refine hgrown.again hrounds hends.bound hoperand fun d' h' => ?_
        exact reads_postfixRound_stop (hends.followsOperand h')
      exact hrest (reads_binary (reads_unary (hhead ▸ hstart) hprimary) fun _ => hends.no_operator)
  | @operator n least z _ c₁ _ hrun hgrown =>
      have hleast : ∀ op : BinaryOp, least ≤ op.precedence → 1 ≤ op.precedence := by
        intro op _
        cases op <;> decide
      have hrounds := rerun_binary (inner_repeats (k := k) n m) hleast c.head.start d.exprLevel
      have hE : c'.Settled k d.exprLevel := ⟨hends.bound, by omega⟩
      have hunary := Rises.again (q := unary (inner m)) c d hcd z c₁ hrun (hgrown.start hrounds hE)
      refine hrest (ℓ := .rising) ?_
      rw [binary, reads_bind, reads_here, ← hhead]
      refine hgrown.again hrounds hE hunary fun d' h' => ?_
      exact reads_binaryRound_stop (hends.no_operator h')

theorem Origin.starts {c c' : Cursor} {x : Expr} (h : Origin c x c') : startsExpr c.head.token := by
  cases h with
  | @type n _ _ hrun => exact typeHere?_starts (inner n) c _ c' hrun rfl
  | @union n t _ c₁ _ hrun _ =>
      have hterm : Yields (typeTerm (inner n)) c fun _ _ => startsExpr c.head.token := by
        simp only [typeTerm, yields_bind, yields_here, yields_eat]
        refine ⟨fun htilde => ?_, fun _ => type_starts n c⟩
        simp [htilde, startsExpr, UnaryOp.ofToken?]
      exact hterm t c₁ hrun
  | @operand n z _ c₁ _ _ hrun _ => exact operand_starts n c z c₁ hrun
  | @operator n _ z _ c₁ _ hrun _ => exact unary_starts n c z c₁ hrun

/-- With nothing behind it but the end of a line, an expression is read as a source of its own. -/
theorem Origin.reads_wholeExpr {c c' d : Cursor} {x : Expr} {ls : List Lexeme} {place : Nat}
    (h : Origin c x c') (hlevel : -1 ≤ c.exprLevel) (hrest : c.rest = ls ++ c'.rest)
    (hd : d.rest = ls ++ [.lineEnd place]) (hstop : d.lastStop = c.lastStop)
    (houter : 0 ≤ d.exprLevel) : Reads True wholeExpr d fun y _ => y = x := by
  let k : Cut := ⟨c'.rest, [.lineEnd place], by simp [Lexeme.lineEnd, Token.closes]⟩
  have hcd : c.Beside k .rising d :=
    ⟨⟨ls, hrest, hd⟩, hstop, hlevel, by omega, fun _ => houter⟩
  simp only [wholeExpr, expr, reads_bind]
  refine reads_nested (by simp) fun _ => ?_
  refine (h.again (k := k) (hcd.withDepth _ _) rfl 255).mono ?_
  rintro _ d' ⟨rfl, hother⟩
  have hhead : (d'.withDepth d.depth).head = .lineEnd place := by simp [Cursor.head, hother, k]
  simp only [reads_get, hhead, isLineEnd_lineEnd, ↓reduceIte, reads_bind, reads_discard, reads_take,
    reads_pure]
  refine reads_expect ?_ trivial
  simp [Cursor.head, Cursor.advance, hother, k]

/-- What grows by rounds that take up all bytes since `b` does so too. -/
theorem Grown.got {src : String} {b : Nat} {round : Expr → Parser (Option Expr)} {x y : Expr}
    {c c₁ c₂ : Cursor} [hround : ∀ d : Held src b c Expr, Nests true src b d.after (round d.val)]
    (h : Grown round x c₁ y c₂) (hx : Got true src b c x c₁) : Got true src b c y c₂ := by
  induction h with
  | refl => exact hx
  | step _ hrun ih =>
      have hnext := (hround ⟨_, _, ih.onto, ih.lies⟩).got hrun
      exact ⟨ih.onto.trans hnext.onto, hnext.lies.of_some rfl, hnext.framed⟩

/-- An expression takes up all bytes from its first token to its last, which may end a statement. -/
theorem Origin.framed {src : String} {c c' : Cursor} {x : Expr} (h : Origin c x c')
    [c.Ready src] : Framed src c.head.start c' x := by
  have hgot : ∀ {p : Parser Expr} {y c₁} [Nests true src c.head.start c p], p c = .ok y c₁ →
      Got true src c.head.start c y c₁ := fun hrun => Nests.got inferInstance hrun
  cases h with
  | type hrun =>
      have ht : Got true src c.head.start c (some x) c' := Nests.got inferInstance hrun
      exact ht.framed rfl x rfl
  | union hrun hgrown | operand _ hrun hgrown | operator hrun hgrown =>
      exact (hgrown.got (hgot hrun)).framed rfl x rfl

/-- The lexemes of an expression, and the last of them. -/
theorem Origin.lexemes {src : String} {c c' : Cursor} {x : Expr} (h : Origin c x c')
    [hc : c.Ready src] (hsmall : Small src) : ∃ ls l, c.rest = ls ++ c'.rest ∧
      ls.getLast? = some l ∧ l.token.endsStatement ∧ x.span = ⟨c.head.start, l.stop⟩ := by
  obtain ⟨hspan, l, hl, hends, hstop⟩ : Framed src c.head.start c' x := h.framed
  obtain ⟨ls, hls⟩ := List.suffix_of_suffix_length_le hl hc.ahead h.takes
  exact ⟨ls ++ [l], l, by simp [← hls], by simp, hends, hstop ▸ hspan hsmall⟩

/-- The end of a line starts no expression. -/
theorem isLineEnd_of_startsExpr {l : Lexeme} (h : startsExpr l.token) : l.isLineEnd = false := by
  rw [Bool.eq_false_iff]
  intro hend
  simp [Lexeme.isLineEnd] at hend
  simp [hend.1, startsExpr, UnaryOp.ofToken?] at h

/-- What is lexed like a part of a legal source, up to the end of a line, is legal. -/
theorem lexicalDiagnostics_of_sights {src text : String} {pre ls post : List Lexeme}
    (hlegal : lexicalDiagnostics (tokenize src) = []) (hsrc : pre ++ (ls ++ post) = tokenize src)
    (h : (tokenize text).map sight = ls.map sight ++ [(.mark .semicolon, true)]) :
    lexicalDiagnostics (tokenize text) = [] := by
  have htokens : (tokenize text).map Lexeme.token =
      ls.map Lexeme.token ++ [.mark .semicolon] := by
    simpa [Function.comp_def, sight] using congrArg (List.map Prod.fst) h
  rw [lexicalDiagnostics_eq_nil_iff] at hlegal ⊢
  rw [← hsrc] at hlegal
  rw [htokens]
  simp only [List.mem_append, List.map_append, List.mem_singleton] at hlegal ⊢
  rintro t (ht | rfl)
  · exact hlegal t (.inr (.inl ht))
  · simp

/-- The text under an expression is read as that expression, unless it is too deep by itself. -/
theorem Origin.reads_text {src : String} {c c' : Cursor} {x : Expr} (h : Origin c x c')
    [hc : c.Ready src] (hlevel : -1 ≤ c.exprLevel)
    (hlegal : lexicalDiagnostics (tokenize src) = []) (hsmall : Small src) :
    (∃ f, parseExpr (x.span.text src) = .ok f ∧ f.root.bare = x.bare) ∨
    ∃ e span, parseExpr (x.span.text src) = .error e ∧
      e.diagnostics = [⟨.parsing, span, Fault.tooDeep.message⟩] := by
  obtain ⟨ls, l, hrest, hlast, hends, hspan⟩ := h.lexemes hsmall
  obtain ⟨f, ls, rfl⟩ := List.exists_cons_of_ne_nil (show ls ≠ [] by rintro rfl; simp at hlast)
  have hhead : c.head = f := by simp [Cursor.head, hrest]
  obtain ⟨pre, hpre⟩ := hc.ahead
  rw [hrest] at hpre
  have hf : f.isLineEnd = false := isLineEnd_of_startsExpr (hhead ▸ h.starts)
  have htext := tokenize_text hlegal hpre.symm hf hlast hends
  rw [hhead] at hspan
  rw [← hspan] at htext
  let d : Cursor := ⟨f :: ls ++ [.lineEnd l.stop], 0, c.lastStop, 0, 0, {}⟩
  have hread := h.reads_wholeExpr (d := d) hlevel hrest rfl rfl le_rfl
  have hsame : d.Alike 0
      (Cursor.start (tokenize (x.span.text src)) (x.span.text src).utf8ByteSize) :=
    ⟨by simp [htext, d, Cursor.start, sight, Lexeme.lineEnd, Lexeme.isLineEnd], rfl, rfl⟩
  have hbare : Reads True wholeExpr
      (Cursor.start (tokenize (x.span.text src)) (x.span.text src).utf8ByteSize)
      fun y _ => y.bare = x.bare := by
    refine (hread.agree wholeExpr_agree hsame).mono ?_
    rintro y _ ⟨_, _, hbare, -, rfl⟩
    exact hbare.symm
  exact (hbare.read (lexicalDiagnostics_of_sights hlegal hpre htext)).imp_right And.right

instance {src : String} : Admits src (Sourced src) :=
  ⟨id⟩

end Grammar

open Grammar

/--
**The source under an expression is that expression**, unless it is too deep by itself.
Excepted are what stands only inside of something else, and the type in the declaration of a
function, which has the name in the middle.
-/
theorem expr_by_itself {src : String} {n : Node} {x : Expr} (h : ReadFrom src n)
    (hx : .expr x ∈ n.nodes) (hsmall : src.utf8ByteSize ≤ Span.maxOffset)
    (halone : x.standsAlone) (hsignature : ∀ d, n = .decl d → ¬ d.IsSignature x) :
    (∃ f, parseExpr (x.span.text src) = .ok f ∧ f.root.bare = x.bare ∧
      f.root.english = x.english) ∨
    ∃ e span, parseExpr (x.span.text src) = .error e ∧
      e.diagnostics = [⟨.parsing, span, Fault.tooDeep.message⟩] := by
  have hlegal : lexicalDiagnostics (tokenize src) = [] := by
    cases h with
    | expr hf | decl hf | stmt hf => exact lexicalDiagnostics_of_read hf
  have hsourced : Sourced src x := by
    rcases h.admitted (P := Sourced src) hx with hsourced | ⟨d, hd, hsig⟩
    · exact hsourced
    · exact absurd hsig (hsignature d hd)
  obtain ⟨c, c', hready, hlevel, horigin⟩ := hsourced halone
  refine (horigin.reads_text hlevel hlegal hsmall).imp_left ?_
  rintro ⟨f, hf, hbare⟩
  refine ⟨f, hf, hbare, ?_⟩
  rw [← Expr.english_bare, hbare, Expr.english_bare]

/-- The type in the declaration of one variable. -/
def Decl.soleType? : Decl → Option Expr
  | .group _ _ _ _ [.value _ t _] _ => t
  | _ => none

theorem exists_soleType {src : String} {p : Expr → Bool}
    (h : (parseDecl src).toOption.any fun f => f.root.soleType?.any p) :
    ∃ f t, parseDecl src = .ok f ∧ .expr t ∈ (Node.decl f.root).nodes ∧
      ¬ f.root.IsSignature t ∧ p t := by
  cases hf : parseDecl src with
  | error e => simp [hf, Except.toOption] at h
  | ok f =>
      obtain ⟨t, ht, hp⟩ : ∃ t, f.root.soleType? = some t ∧ p t := by
        simpa [hf, Except.toOption, Option.any_eq_true] using h
      rw [Decl.soleType?.eq_def] at ht
      split at ht
      · rename_i names _ values _ hroot
        subst ht
        have hspec : .expr t ∈ (Node.spec (.value names (some t) values)).nodes := by
          rw [Node.nodes_eq, Node.children, Node.specChildren]
          simp [Node.expr?, Node.exprs, Node.nodes_eq (.expr t)]
        refine ⟨f, t, rfl, ?_, by simp [hroot, Decl.IsSignature], hp⟩
        rw [hroot, Node.nodes_eq, Node.children, Node.declChildren]
        simpa using hspec
      · cases ht

/-- A type, which is read as an operand by itself. -/
theorem expr_by_itself_map :
    ∃ f x g, parseDecl "var m map[string][]*T" = .ok f ∧ .expr x ∈ (Node.decl f.root).nodes ∧
      parseExpr (x.span.text "var m map[string][]*T") = .ok g ∧ g.root.bare = x.bare ∧
      g.root.english = x.english := by
  have hok : (parseDecl "var m map[string][]*T").toOption.any fun f =>
      f.root.soleType?.any fun t => t.standsAlone &&
        (parseExpr (t.span.text "var m map[string][]*T")).toOption.isSome := by
    decide +kernel
  obtain ⟨f, t, hf, hmem, hsig, ht⟩ := exists_soleType hok
  rw [Bool.and_eq_true] at ht
  have hsig : ∀ d, Node.decl f.root = .decl d → ¬ d.IsSignature t := by
    rintro _ ⟨⟩
    exact hsig
  rcases expr_by_itself (.decl hf) hmem (by decide) ht.1 hsig with ⟨g, hg⟩ | ⟨e, span, herror, -⟩
  · exact ⟨f, t, g, hf, hmem, hg⟩
  · simp [herror, Except.toOption] at ht

/-- A row of asterisks and a name are cut into one piece each. -/
theorem cut_pointers (n : Nat) : Piece.cut 0 (List.replicate n '*' ++ ['i']) =
    List.replicate n ⟨.token (.mark .star), ['*']⟩ ++ [⟨.token (.name "i"), ['i']⟩] := by
  induction n with
  | zero => rfl
  | succ n ih =>
      rw [List.replicate_succ, List.replicate_succ, List.cons_append, List.cons_append, ← ih]
      cases n with
      | zero => rfl
      | succ n => rfl

/-- A source that ends in such a row is read without its text being cut. -/
theorem read_pointers {α : Type} (p : Parser α) (front : List Char) (n : Nat)
    (h : ∀ cs, Piece.cut 0 (front ++ '*' :: cs) = Piece.cut 0 front ++ Piece.cut 0 ('*' :: cs)) :
    let cs := front ++ (List.replicate (n + 1) '*' ++ ['i'])
    let ls := Lexeme.ofPieces false 0 (Piece.cut 0 front ++
      (List.replicate (n + 1) ⟨.token (.mark .star), ['*']⟩ ++ [⟨.token (.name "i"), ['i']⟩]))
    (Fragment.read p (String.ofList cs)).toOption = match p (Cursor.start ls (byteSize cs)) with
      | .ok root c => if (lexicalDiagnostics ls).isEmpty then some ⟨root, c.bench⟩ else none
      | .error _ _ => none := by
  intro cs ls
  have hls : tokenize (String.ofList cs) = ls := by
    rw [tokenize, Piece.ofSource, String.toList_ofList]
    exact congrArg _ ((h _).trans (congrArg _ (cut_pointers (n + 1))))
  have hsize : (String.ofList cs).utf8ByteSize = byteSize cs := by
    rw [← byteSize_toList, String.toList_ofList]
  rw [Fragment.read, hls, hsize]
  cases p (Cursor.start ls (byteSize cs)) with
  | ok root c => dsimp only; split <;> rfl
  | error e c => rfl

/-- A type that takes up all levels as that of a variable takes one level more by itself. -/
theorem pointers_too_deep : ∃ src f x, src.utf8ByteSize ≤ Span.maxOffset ∧
    parseDecl src = .ok f ∧ .expr x ∈ (Node.decl f.root).nodes ∧ x.standsAlone ∧
    ¬ f.root.IsSignature x ∧ ∀ g, parseExpr (x.span.text src) ≠ .ok g := by
  let cs := ['v', 'a', 'r', ' ', 'x', ' ', '[', ']'] ++ (List.replicate 254 '*' ++ ['i'])
  have hdecl : (parseDecl (String.ofList cs)).toOption.any fun f => f.root.soleType?.any fun t =>
      t.standsAlone && decide (t.span = ⟨6, 263⟩) := by
    rw [parseDecl, read_pointers wholeDecl _ 253 fun _ => rfl]
    decide +kernel
  have hexpr : (parseExpr (String.ofList (cs.drop 6))).toOption = none := by
    rw [parseExpr]
    refine (read_pointers wholeExpr ['[', ']'] 253 fun _ => rfl).trans ?_
    decide +kernel
  obtain ⟨f, t, hf, hmem, hsig, ht⟩ := exists_soleType hdecl
  rw [Bool.and_eq_true, decide_eq_true_eq] at ht
  have hslice : slice? cs 6 263 = some (cs.drop 6) := by
    decide +kernel
  have htext : t.span.text (String.ofList cs) = String.ofList (cs.drop 6) := by
    rw [ht.2, Span.text, String.toList_ofList, hslice]
  refine ⟨String.ofList cs, f, t, ?_, hf, hmem, ht.1, hsig, fun g hg => ?_⟩
  · rw [← byteSize_toList, String.toList_ofList]
    decide +kernel
  · rw [← htext, hg] at hexpr
    cases hexpr

end GoGloss
