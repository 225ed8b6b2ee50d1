import GoGloss.Flat.Expressions
import GoGloss.Proofs.Arena.Types

/-!
# Expressions go together

The productions for expressions, walked through side by side. What follows an operand
depends on the operand: the reader of trees has it at hand, the reader of arenas looks
it up by its number. Parentheses around it are looked through, which comes to an end
since a node only refers to nodes made before it.
-/

namespace GoGloss.Flat

open Grammar

/-! ## Looking up an expression -/

namespace Mirror

variable {ls : List Lexeme} {log : List Event} {w : Workbench} (h : Mirror ls log w)
include h

/-- What is inside parentheses was made before them. -/
theorem lt_of_paren {i j : ExprId} {lparen rparen : Span}
    (hi : (replay log).node? i = some (.paren lparen j rparen)) : j.raw < i.raw := by
  obtain ⟨span, before, -, hraw, hsound⟩ := h.kept.sound_node hi
  have hj : j.any ∈ made before := (hsound (.node j) List.mem_cons_self).1
  rw [hraw]
  exact mem_made.mp hj

theorem unparen {i : ExprId} {x : Expr} (hi : StandsFor log w i x) :
    StandsFor log w ((replay log).unparen i) x.unparen := by
  induction x using Expr.unparen.induct generalizing i with
  | case1 span lparen x rparen ih =>
      obtain ⟨n, ps, hn, hof, hps⟩ := h.of_standsFor hi
      cases hof with
      | @paren _ j _ _ _ =>
          have hj : StandsFor log w j x := hps _ List.mem_cons_self
          rw [Arena.unparen, hn]
          simp only
          rw [if_pos (h.lt_of_paren hn), Expr.unparen]
          exact ih hj
  | case2 x hx =>
      obtain ⟨n, ps, hn, hof, -⟩ := h.of_standsFor hi
      rw [Arena.unparen, hn]
      cases hof with
      | paren => exact absurd rfl (hx _ _ _ _)
      | _ => exact hi

theorem opensLiteral_eq {i : ExprId} {x : Expr} (hi : StandsFor log w i x) (level : Int) :
    opensLiteral (replay log) i level = Grammar.opensLiteral x level := by
  obtain ⟨n, ps, hn, hof, -⟩ := h.of_standsFor (h.unparen hi)
  rw [opensLiteral, Grammar.opensLiteral, hn]
  generalize x.unparen = y at hof
  cases hof <;> rfl

end Mirror

section Productions

variable {u : Inner} {v : Grammar.Inner} (h : Twins u v)
include h

/-! ## Operands -/

theorem twin_parenExpr : Twin [] (parenExpr u) (Grammar.parenExpr v) One := by
  refine twin_here.same fun start => twin_take.same fun lparen => ?_
  refine (twin_expr h).bracketed.node fun i x => (twin_expect _).same fun rparen => ?_
  exact (twin_spanFrom _).same fun span => twin_makeExpr .paren

theorem twin_funcTypeOrLit : Twin [] (funcTypeOrLit u) (Grammar.funcTypeOrLit v) One := by
  refine twin_here.same fun start => (twin_funcType h).node fun i t => ?_
  refine (twin_isAt _).same fun _ => .ite ?_ (twin_pure rfl)
  refine (twin_block h).bracketed.after fun b body ps hb => ?_
  exact (twin_spanFrom _).same fun span => twin_makeExpr (.funcLit hb)

theorem twin_operand : Twin [] (operand u) (Grammar.operand v) One := by
  refine twin_peek_ahead fun t c hc => ?_
  have htype := twin_typeAs h .operand c
  cases t with
  | name =>
      refine twin_ident.after ?_ c
      rintro n m _ ⟨hpos, rfl⟩
      rw [hpos]
      exact twin_makeExpr .ident
  | literal =>
      refine Goes.bind (F := []) (goes_take_literal hc) ?_
      rintro raw _ _ ⟨rfl, rfl⟩
      exact twin_makeExpr .literal
  | mark m =>
      cases m with
      | lparen => exact twin_parenExpr h c
      | _ => exact htype
  | keyword word =>
      cases word with
      | func_ => exact twin_funcTypeOrLit h c
      | _ => exact htype
  | _ => exact htype

/-! ## What follows an operand -/

theorem twin_selectorOrAssertion (i : ExprId) (x : Expr) (start : Nat) :
    Twin [.node i x] (selectorOrAssertion u i start) (Grammar.selectorOrAssertion v x start)
      One := by
  refine twin_take.discard.same fun _ => twin_peek.same fun t => ?_
  split
  · refine twin_ident.after ?_
    rintro n m _ ⟨-, rfl⟩
    exact (twin_spanFrom _).same fun span => twin_makeExpr .selector
  · refine twin_take.discard.same fun _ => (twin_eats _).same fun _ => ?_
    refine Twin.join (twin_pure .none) (twin_type h).some fun o t ps ht => ?_
    refine (twin_expect _).discard.same fun _ => ?_
    exact (twin_spanFrom _).same fun span => twin_makeExpr (.typeAssert ht)
  · exact twin_failExpected.reads (by simp only)

theorem twin_sliceBound : Twin [] (sliceBound u) (Grammar.sliceBound v) (Maybe One) := by
  refine twin_peek.same fun t => ?_
  split
  · exact twin_pure .none
  · exact twin_pure .none
  · exact (twin_expr h).some

/-- The bounds of a slice after the first, and whether there are two colons. -/
inductive BoundsOf : Option ExprId × Option ExprId × Bool → Option Expr × Option Expr × Bool →
    List Part → Prop where
  | mk (hhi : Maybe One o t ps) (hmax : Maybe One o' t' qs) :
    BoundsOf (o, o', full) (t, t', full) (ps ++ qs)

theorem twin_sliceBounds : Twin [] (sliceBounds u) (Grammar.sliceBounds v) BoundsOf := by
  refine (twin_eats _).same fun _ => .ite ?_ (twin_pure (.mk .none .none))
  refine (twin_sliceBound h).after fun o t ps hhi => (twin_eats _).same fun _ => .ite ?_ ?_
  · exact (twin_sliceBound h).after fun o' t' qs hmax => twin_pure (.mk hhi hmax)
  · exact (twin_pure (.mk hhi .none)).of_eq (by simp)

/-- What stands between the brackets after an operand. -/
inductive SubscriptOf : Subscript ExprId → Subscript Expr → List Part → Prop where
  | indices (hxs : Each One is xs ps) :
    SubscriptOf (.indices i is) (.indices x xs) ([.node i x] ++ ps)
  | slice (hlo : Maybe One o t ps) (hhi : Maybe One o' t' qs) (hmax : Maybe One o'' t'' rs) :
    SubscriptOf (.slice o o' o'' full) (.slice t t' t'' full) (ps ++ (qs ++ rs))

theorem twin_subscript : Twin [] (subscript u) (Grammar.subscript v) SubscriptOf := by
  refine (twin_isAt _).same fun _ => ?_
  refine Twin.join (twin_pure .none) (twin_expr h).some fun o t ps hfirst => ?_
  have hslice : Twin ps
      (do let b ← sliceBounds u; return Subscript.slice o b.1 b.2.1 b.2.2)
      (do let b ← Grammar.sliceBounds v; return .slice t b.1 b.2.1 b.2.2) SubscriptOf := by
    refine (twin_sliceBounds h).after fun b b' qs ⟨hhi, hmax⟩ => ?_
    exact twin_pure (.slice hfirst hhi hmax)
  refine (twin_isAt _).same fun colon => ?_
  cases hfirst with
  | none => exact hslice
  | some hx =>
      cases colon with
      | true => exact hslice
      | false =>
          obtain rfl := hx
          exact (twin_expr h).moreUntil.after fun is xs qs hxs => twin_pure (.indices hxs)

theorem twin_subscripted (i : ExprId) (x : Expr) (start : Nat) :
    Twin [.node i x] (subscripted u i start) (Grammar.subscripted v x start) One := by
  refine twin_take.discard.same fun _ => (twin_subscript h).bracketed.after fun _ _ ps hsub => ?_
  refine (twin_expect _).same fun rbrack => (twin_spanFrom _).same fun span => ?_
  cases hsub with
  | @indices is xs ps j y hxs =>
      cases hxs with
      | nil => exact twin_makeExpr .index
      | cons hx hxs =>
          have hall := Each.cons (R := One) (a := j) (b := y) rfl (.cons hx hxs)
          exact twin_shelve_last (F := [.node i x]) hall One.fits fun r ps hr =>
            twin_makeExpr (.indexList hr)
  | @slice o t ps o' t' qs o'' t'' rs full hlo hhi hmax =>
      have hmade : Twin ([.node i x] ++ (ps ++ (qs ++ rs)))
          (allocExpr (.slice i o o' o'' full) span) (makeExpr (.slice span x t t' t'' full)) One :=
        (twin_makeExpr (.slice hlo hhi hmax)).of_eq (by simp)
      -- Only with two colons may a bound be missed.
      cases full with
      | false => cases hhi <;> cases hmax <;> exact hmade
      | true =>
          cases hhi with
          | none => exact twin_failAt
          | some hhi =>
              cases hmax with
              | none => exact twin_failAt
              | some hmax => exact hmade

/-- An argument of a call, and the place of the dots after it. -/
def ArgOf (a : ExprId × Option Span) (b : Expr × Option Span) (ps : List Part) : Prop :=
  One a.1 b.1 ps ∧ a.2 = b.2

omit h in
theorem Each.args {as : List (ExprId × Option Span)} {bs : List (Expr × Option Span)}
    {ps : List Part} (hargs : Each ArgOf as bs ps) :
    Each One (as.map (·.1)) (bs.map (·.1)) ps ∧ as.map (·.2) = bs.map (·.2) := by
  induction hargs with
  | nil => exact ⟨.nil, rfl⟩
  | cons harg _ ih => exact ⟨.cons harg.1 ih.1, by simp [harg.2, ih.2]⟩

theorem twin_argRound : Twin [] (argRound u) (Grammar.argRound v) (RoundOf ArgOf) := by
  refine twin_peek.same fun t => ?_
  split
  · exact twin_pure .done
  · exact twin_pure .done
  · refine (twin_expr h).node fun i x => (twin_eat _).same fun dots => ?_
    cases dots with
    | none =>
        exact (twin_eats _).same fun _ =>
          .ite (twin_pure (.more ⟨rfl, rfl⟩)) (twin_pure (.last ⟨rfl, rfl⟩))
    | some dots => exact (twin_eat _).discard.same fun _ => twin_pure (.last ⟨rfl, rfl⟩)

theorem twin_call (i : ExprId) (x : Expr) (start : Nat) :
    Twin [.node i x] (call u i start) (Grammar.call v x start) One := by
  refine twin_take.discard.same fun _ => ?_
  refine (twin_argRound h).collect.bracketed.after fun as bs ps hargs => ?_
  refine (twin_expect _).discard.same fun _ => ?_
  obtain ⟨hxs, hdots⟩ := hargs.args
  have hjoin : ∀ {α : Type} (as : List (α × Option Span)),
      as.getLast?.bind (·.2) = (as.map (·.2)).getLast?.join := by
    intro α as
    rw [List.getLast?_map]
    cases as.getLast? <;> rfl
  have hlast : as.getLast?.bind (·.2) = bs.getLast?.bind (·.2) := by
    rw [hjoin, hjoin, hdots]
  refine twin_shelve_last hxs One.fits fun r ps hr => (twin_spanFrom _).same fun span => ?_
  rw [hlast]
  exact twin_makeExpr (.call hr)

theorem twin_elementValue : Twin [] (elementValue u) (Grammar.elementValue v) One := by
  refine (twin_isAt _).same fun _ => .ite ?_ (twin_expr h)
  exact twin_here.same fun start => (h.literalValue .none start).nested

theorem twin_element : Twin [] (element u) (Grammar.element v) One := by
  refine twin_here.same fun start => (twin_elementValue h).node fun i x => ?_
  refine (twin_eat _).same fun colon => ?_
  cases colon with
  | none => exact twin_pure rfl
  | some colon =>
      refine (twin_elementValue h).node fun j y => (twin_spanFrom _).same fun span => ?_
      exact twin_makeExpr .keyValue

theorem twin_literalValue {o : Option ExprId} {t : Option Expr} {ps : List Part}
    (ht : Maybe One o t ps) (start : Nat) :
    Twin ps (literalValue u o start) (Grammar.literalValue v t start) One := by
  refine (twin_expect _).same fun lbrace => ?_
  refine (twin_element h).commaListUntil.bracketed.after fun is xs qs hxs => ?_
  refine (twin_expect _).same fun rbrace => twin_shelve_last hxs One.fits fun r rs hr => ?_
  exact (twin_spanFrom _).same fun span => twin_makeExpr (.composite ht hr)

theorem twin_postfixRound (start : Nat) (i : ExprId) (x : Expr) :
    Twin [.node i x] (postfixRound u start i) (Grammar.postfixRound v start x)
      (Grown One [.node i x]) := by
  refine twin_peek.same fun t => ?_
  split
  · exact twin_enter.same fun _ => (twin_selectorOrAssertion h i x start).map fun _ _ _ => .some
  · exact twin_enter.same fun _ => (twin_subscripted h i x start).map fun _ _ _ => .some
  · exact twin_enter.same fun _ => (twin_call h i x start).map fun _ _ _ => .some
  · intro c ls log H hmatch
    have hi : StandsFor log c.bench i x := hmatch.parts (.node i x) (by simp)
    have hite : Twin [.node i x]
        (if opensLiteral (replay log) i c.exprLevel then do
          enter
          some <$> literalValue u (some i) start
        else return none)
        (if Grammar.opensLiteral x c.exprLevel then do
          enter
          some <$> Grammar.literalValue v (some x) start
        else return none) (Grown One [.node i x]) := by
      rw [hmatch.mirror.opensLiteral_eq hi]
      refine .ite (twin_enter.same fun _ => ?_) (twin_pure .none)
      exact (twin_literalValue h (.some rfl) start).map fun _ _ _ => .some
    exact hite c ls log H hmatch
  · exact (twin_pure .none).reads (by simp only)

theorem twin_primary : Twin [] (primary u) (Grammar.primary v) One := by
  refine twin_here.same fun start => (twin_operand h).node fun i x => ?_
  exact Twin.extend rfl fun j y ps hps => hps ▸ twin_postfixRound h start j y

/-! ## Operators -/

theorem twin_receiveExpr : Twin [] (receiveExpr u) (Grammar.receiveExpr v) One := by
  refine twin_here.same fun start => twin_take.same fun opPos => ?_
  refine (twin_eats _).same fun _ => .ite ?_ ?_
  · refine (twin_type h).node fun i t => ?_
    exact (twin_spanFrom _).same fun span => twin_makeExpr .chanType
  · refine (twin_operandUnder h).node fun i x => ?_
    exact (twin_spanFrom _).same fun span => twin_makeExpr .unary

theorem twin_starExpr : Twin [] (starExpr u) (Grammar.starExpr v) One :=
  twin_here.same fun _ => twin_take.same fun _ => (twin_operandUnder h).node fun _ _ =>
    (twin_spanFrom _).same fun _ => twin_makeExpr .star

theorem twin_unaryExpr (op : UnaryOp) :
    Twin [] (unaryExpr u op) (Grammar.unaryExpr v op) One :=
  twin_here.same fun _ => twin_take.same fun _ => (twin_operandUnder h).node fun _ _ =>
    (twin_spanFrom _).same fun _ => twin_makeExpr .unary

theorem twin_unary : Twin [] (unary u) (Grammar.unary v) One := by
  refine twin_peek.same fun t => ?_
  split
  · exact twin_receiveExpr h
  · exact twin_starExpr h
  · split
    · exact twin_unaryExpr h _
    · exact twin_primary h

theorem twin_binaryRound (least start : Nat) (i : ExprId) (x : Expr) :
    Twin [.node i x] (binaryRound u least start i) (Grammar.binaryRound v least start x)
      (Grown One [.node i x]) := by
  refine twin_peek.same fun t => ?_
  cases BinaryOp.ofToken? t with
  | none => exact twin_pure .none
  | some op =>
      refine .ite (twin_pure .none) (twin_enter.same fun _ => twin_take.same fun opPos => ?_)
      refine (h.binary _).node fun j y => (twin_spanFrom _).same fun span => ?_
      exact (twin_makeExpr .binary).made (F := []) fun k z => twin_pure (.some rfl)

theorem twin_binary (least : Nat) : Twin [] (binary u least) (Grammar.binary v least) One := by
  refine twin_here.same fun start => (twin_unary h).node fun i x => ?_
  exact Twin.extend rfl fun j y ps hps => hps ▸ twin_binaryRound h least start j y

end Productions

end GoGloss.Flat
