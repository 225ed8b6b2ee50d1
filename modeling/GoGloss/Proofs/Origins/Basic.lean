import GoGloss.Proofs.Placement.Basic

/-!
# Where expressions come from

Each expression of a tree was made by some production, from a cursor on to where that
production stopped. There are four ways: it is a type, a term of a union of types, an
operand with some of what is written after it, or an operand with some of the operators
around it. `Origin` tells them apart.

A few expressions are parts of something else and make no sense by themselves
(`Expr.standsAlone`). Of all others an origin is on record: `Stocks` says of a reader
that it puts no other expressions on the bench.
-/

namespace GoGloss

/--
Whether an expression can be written by itself. An element with its key cannot, nor a
literal without its type, nor dots, nor the signature of a method in an interface.
-/
def Expr.standsAlone : Expr → Bool
  | .keyValue .. | .composite _ none .. | .ellipsis .. | .funcType _ none .. => false
  | _ => true

namespace Grammar

variable {α β : Type}

/-- What some rounds make of an expression. -/
inductive Grown (round : Expr → Parser (Option Expr)) (x : Expr) (c : Cursor) :
    Expr → Cursor → Prop where
  | refl : Grown round x c x c
  | step {y z : Expr} {c₁ c₂ : Cursor} (h : Grown round x c y c₁)
    (hround : round y c₁ = .ok (some z) c₂) : Grown round x c z c₂

/-- Whether no operator stands in front of an operand that starts with a token. -/
def startsPrimary : Token → Bool
  | .mark .arrow | .mark .star => false
  | t => (UnaryOp.ofToken? t).isNone

/-- How an expression was read from one cursor to another. -/
inductive Origin (c : Cursor) : Expr → Cursor → Prop where
  | type {n : Nat} {t : Expr} {c' : Cursor} (h : typeHere? (inner n) c = .ok (some t) c') :
    Origin c t c'
  | union {n : Nat} {t u : Expr} {c₁ c₂ : Cursor} (h : typeTerm (inner n) c = .ok t c₁)
    (hgrown : Grown (unionRound (inner n) c.head.start) t c₁ u c₂) : Origin c u c₂
  | operand {n : Nat} {x y : Expr} {c₁ c₂ : Cursor} (hstart : startsPrimary c.head.token)
    (h : operand (inner n) c = .ok x c₁)
    (hgrown : Grown (postfixRound (inner n) c.head.start) x c₁ y c₂) : Origin c y c₂
  | operator {n least : Nat} {x y : Expr} {c₁ c₂ : Cursor} (h : unary (inner n) c = .ok x c₁)
    (hgrown : Grown (binaryRound (inner n) least c.head.start) x c₁ y c₂) : Origin c y c₂

/-- An expression was read somewhere in a source, unless it does not stand alone. -/
def Sourced (src : String) (x : Expr) : Prop :=
  x.standsAlone → ∃ c c' : Cursor, c.Ready src ∧ -1 ≤ c.exprLevel ∧ Origin c x c'

variable {src : String} {P : Expr → Prop}

/-- A cursor in a source that has put only expressions in `P` on the bench. -/
structure Cursor.Stocked (src : String) (P : Expr → Prop) (c : Cursor) : Prop where
  ready : c.Ready src
  level : -1 ≤ c.exprLevel
  exprs : ∀ x ∈ c.bench.exprs, P x

namespace Cursor

variable {c : Cursor}

@[simp] theorem stocked_withDepth {n : Nat} : (c.withDepth n).Stocked src P ↔ c.Stocked src P :=
  ⟨fun h => ⟨(Same.mk rfl rfl rfl : (c.withDepth n).Same c).ready h.1, h.2, h.3⟩,
    fun h => ⟨same_withDepth.ready h.1, h.2, h.3⟩⟩

theorem Stocked.advance (h : c.Stocked src P) : c.advance.Stocked src P :=
  ⟨h.ready.onto_advance.ready, h.level, h.exprs⟩

theorem Stocked.withExprLevel (h : c.Stocked src P) {i : Int} (hi : -1 ≤ i) :
    (c.withExprLevel i).Stocked src P :=
  ⟨same_withExprLevel.ready h.ready, hi, h.exprs⟩

theorem Stocked.withBench (h : c.Stocked src P) {w : Workbench}
    (hw : ∀ x ∈ w.exprs, x ∈ c.bench.exprs ∨ P x) : (c.withBench w).Stocked src P :=
  ⟨same_withBench.ready h.ready, h.level, fun x hx => (hw x hx).elim (h.exprs x) id⟩

theorem Stocked.addExpr (h : c.Stocked src P) {x : Expr} (hx : P x) :
    (c.withBench (c.bench.addExpr x)).Stocked src P := by
  refine h.withBench fun y hy => ?_
  rcases Array.mem_push.mp hy with hy | rfl
  · exact .inl hy
  · exact .inr hx

theorem Stocked.mono {Q : Expr → Prop} (h : c.Stocked src P) (himp : ∀ x, P x → Q x) :
    c.Stocked src Q :=
  ⟨h.ready, h.level, fun x hx => himp x (h.exprs x hx)⟩

/-- What is kept from one cursor to the next: the stock and the expression level. -/
def Onward (src : String) (P : Expr → Prop) (c c' : Cursor) : Prop :=
  c'.Stocked src P ∧ c'.exprLevel = c.exprLevel

theorem Stocked.onward (h : c.Stocked src P) : c.Onward src P c :=
  ⟨h, rfl⟩

end Cursor

/-- A reader puts only expressions in `P` on the bench, and leaves the level as it was. -/
class Stocks (src : String) (P : Expr → Prop) (p : Parser α) : Prop where
  yields : ∀ c, c.Stocked src P → Yields p c fun _ c' => c.Onward src P c'

/-- The same for a reader whose result is in `P`: that one may be put on the bench last. -/
class Finishes (src : String) (P : Expr → Prop) (p : Parser Expr) : Prop where
  yields : ∀ c, c.Stocked src P → Yields p c fun x c' =>
    (P x → c'.Stocked src P) ∧ c'.exprLevel = c.exprLevel

/-- The same for a reader that may have no result. -/
class Offers (src : String) (P : Expr → Prop) (p : Parser (Option Expr)) : Prop where
  yields : ∀ c, c.Stocked src P → Yields p c fun x c' =>
    ((∀ y ∈ x, P y) → c'.Stocked src P) ∧ c'.exprLevel = c.exprLevel

/-! ## Steps -/

section Steps

instance (priority := low) [h : Stocks src P (p : Parser Expr)] : Finishes src P p where
  yields c hc := (h.yields c hc).mono fun _ _ hgot => ⟨fun _ => hgot.1, hgot.2⟩

instance (priority := low) [h : Stocks src P (p : Parser (Option Expr))] : Offers src P p where
  yields c hc := (h.yields c hc).mono fun _ _ hgot => ⟨fun _ => hgot.1, hgot.2⟩

/-- If whatever it returns is in `P`, a reader may finish with it. -/
theorem Stocks.of_finishes {p : Parser Expr} (h : Finishes src P p)
    (hP : ∀ {c x c'}, c.Stocked src P → p c = .ok x c' → P x) : Stocks src P p where
  yields c hc x c' hrun := by
    obtain ⟨hstocked, hlevel⟩ := h.yields c hc x c' hrun
    exact ⟨hstocked (hP hc hrun), hlevel⟩

theorem Stocks.of_offers {p : Parser (Option Expr)} (h : Offers src P p)
    (hP : ∀ {c x c'}, c.Stocked src P → p c = .ok (some x) c' → P x) : Stocks src P p where
  yields c hc x c' hrun := by
    obtain ⟨hstocked, hlevel⟩ := h.yields c hc x c' hrun
    refine ⟨hstocked fun y hy => ?_, hlevel⟩
    obtain rfl : x = some y := hy
    exact hP hc hrun

/-- A reader that succeeds without moving. -/
theorem Stocks.of_still {p : Parser α} (h : ∀ c, Yields p c fun _ c' => c' = c) :
    Stocks src P p where
  yields c hc := (h c).mono fun _ _ heq => heq ▸ hc.onward

theorem Stocks.of_fails {p : Parser α} (h : ∀ c, Yields p c fun _ _ => False) :
    Stocks src P p where
  yields c _ := (h c).mono fun _ _ => False.elim

instance (a : α) : Stocks src P (pure a : Parser α) := .of_still (by simp)
instance (span : Span) (fault : Fault) : Stocks src P (failAt span fault : Parser α) :=
  .of_fails (by simp)
instance (fault : Fault) : Stocks src P (failHere fault : Parser α) := .of_fails (by simp)
instance (wanted : Wanted) : Stocks src P (failExpected wanted : Parser α) := .of_fails (by simp)
instance : Stocks src P (get : Parser Cursor) := .of_still (by simp)
instance : Stocks src P (peek : Parser Token) := .of_still (by simp)
instance : Stocks src P (peekSecond : Parser Token) := .of_still (by simp)
instance : Stocks src P (here : Parser Nat) := .of_still (by simp)
instance (start : Nat) : Stocks src P (spanFrom start : Parser Span) := .of_still (by simp)
instance (t : Token) : Stocks src P (isAt t : Parser Bool) := .of_still (by simp)

instance : Stocks src P (take : Parser Span) where
  yields c hc := by simpa using ⟨hc.advance, rfl⟩

instance (t : Token) : Stocks src P (eat t : Parser (Option Span)) where
  yields c hc := by simpa using ⟨fun _ => ⟨hc.advance, rfl⟩, fun _ => hc.onward⟩

instance (t : Token) : Stocks src P (eats t : Parser Bool) where
  yields c hc := by simpa using ⟨fun _ => ⟨hc.advance, rfl⟩, fun _ => hc.onward⟩

instance (t : Token) : Stocks src P (expect t : Parser Span) where
  yields _ hc := by simpa using fun _ => ⟨hc.advance, rfl⟩

instance : Stocks src P (expectEnd : Parser Unit) where
  yields _ hc := yields_expectEnd.mpr ⟨fun _ => ⟨hc.advance, rfl⟩, fun _ => hc.onward⟩

instance : Stocks src P (textLiteral? : Parser (Option Literal)) where
  yields _ hc := yields_textLiteral?.mpr ⟨fun _ _ _ _ => ⟨hc.advance, rfl⟩, fun _ => hc.onward⟩

instance : Stocks src P name where
  yields _ hc := yields_name.mpr fun _ _ => ⟨hc.advance.withBench fun _ hx => .inl hx, rfl⟩

instance (f : Field) : Stocks src P (makeField f) where
  yields _ hc := yields_makeField.mpr ⟨hc.withBench fun _ hx => .inl hx, rfl⟩

instance (s : Stmt) : Stocks src P (makeStmt s) where
  yields _ hc := yields_makeStmt.mpr ⟨hc.withBench fun _ hx => .inl hx, rfl⟩

instance (d : Decl) : Stocks src P (makeDecl d) where
  yields _ hc := yields_makeDecl.mpr ⟨hc.withBench fun _ hx => .inl hx, rfl⟩

theorem stocks_makeExpr {x : Expr} (hx : P x) : Stocks src P (makeExpr x) where
  yields _ hc := yields_makeExpr.mpr ⟨hc.addExpr hx, rfl⟩

instance (x : Expr) : Finishes src P (makeExpr x) where
  yields _ hc := yields_makeExpr.mpr ⟨hc.addExpr, rfl⟩

theorem Stocks.before {p : Parser α} {f : α → Parser β} {post : β → Cursor → Prop} {c : Cursor}
    (hp : Stocks src P p) (hc : c.Stocked src P)
    (hf : ∀ a c₁, c₁.Stocked src P →
      Yields (f a) c₁ fun b c₂ => post b c₂ ∧ c₂.exprLevel = c₁.exprLevel) :
    Yields (p >>= f) c fun b c₂ => post b c₂ ∧ c₂.exprLevel = c.exprLevel := by
  rw [yields_bind]
  refine (hp.yields c hc).mono fun a c₁ ⟨h₁, hlevel⟩ => ?_
  exact (hf a c₁ h₁).mono fun b c₂ hgot => ⟨hgot.1, hgot.2.trans hlevel⟩

theorem Stocks.bind {p : Parser α} {f : α → Parser β} (hp : Stocks src P p)
    (hf : ∀ a, Stocks src P (f a)) : Stocks src P (p >>= f) where
  yields _ hc := hp.before hc fun a => (hf a).yields

theorem Finishes.step {p : Parser α} {f : α → Parser Expr} [hp : Stocks src P p]
    (hf : ∀ a, Finishes src P (f a)) : Finishes src P (p >>= f) where
  yields _ hc := hp.before hc fun a => (hf a).yields

theorem Stocks.step {p : Parser α} {f : α → Parser β} [hp : Stocks src P p]
    (hf : ∀ a, Stocks src P (f a)) : Stocks src P (p >>= f) :=
  hp.bind hf

instance {p : Parser α} {f : α → Parser β} [hp : Stocks src P p] [hf : ∀ a, Stocks src P (f a)] :
    Stocks src P (p >>= f) :=
  hp.bind hf

instance {p : Parser α} {f : α → Parser Expr} [hp : Stocks src P p]
    [hf : ∀ a, Finishes src P (f a)] : Finishes src P (p >>= f) :=
  .step hf

theorem Offers.step {p : Parser α} {f : α → Parser (Option Expr)} [hp : Stocks src P p]
    (hf : ∀ a, Offers src P (f a)) : Offers src P (p >>= f) where
  yields _ hc := hp.before hc fun a => (hf a).yields

instance {p : Parser α} {f : α → Parser (Option Expr)} [hp : Stocks src P p]
    [hf : ∀ a, Offers src P (f a)] : Offers src P (p >>= f) :=
  .step hf

instance {p : Parser Expr} [hp : Finishes src P p] : Offers src P (some <$> p) where
  yields c hc := yields_map.mpr ((hp.yields c hc).mono fun x _ hgot =>
    ⟨fun hx => hgot.1 (hx x rfl), hgot.2⟩)

instance {p : Parser Expr} [hp : Finishes src P p] : Offers src P (p >>= fun x => pure (some x)) :=
  inferInstanceAs (Offers src P (some <$> p))

instance {p : Parser α} {f : α → β} [hp : Stocks src P p] : Stocks src P (f <$> p) where
  yields c hc := yields_map.mpr (hp.yields c hc)

instance {p : Parser α} [hp : Stocks src P p] : Stocks src P (discard p) where
  yields c hc := yields_discard.mpr (hp.yields c hc)

instance {b : Prop} [Decidable b] {p q : Parser α} [hp : Stocks src P p] [hq : Stocks src P q] :
    Stocks src P (if b then p else q) where
  yields c hc := yields_ite.mpr ⟨fun _ => hp.yields c hc, fun _ => hq.yields c hc⟩

instance {b : Prop} [Decidable b] {p q : Parser Expr} [hp : Finishes src P p]
    [hq : Finishes src P q] : Finishes src P (if b then p else q) where
  yields c hc := yields_ite.mpr ⟨fun _ => hp.yields c hc, fun _ => hq.yields c hc⟩

instance {b : Prop} [Decidable b] {p q : Parser (Option Expr)} [hp : Offers src P p]
    [hq : Offers src P q] : Offers src P (if b then p else q) where
  yields c hc := yields_ite.mpr ⟨fun _ => hp.yields c hc, fun _ => hq.yields c hc⟩

instance {p : Parser α} [hp : Stocks src P p] : Stocks src P (nested p) where
  yields c hc := by
    rw [yields_nested]
    intro _
    refine (hp.yields _ (Cursor.stocked_withDepth.mpr hc)).mono fun _ c₁ hgot => ?_
    exact ⟨Cursor.stocked_withDepth.mpr hgot.1, hgot.2⟩

instance : Stocks src P (enter : Parser Unit) where
  yields _ hc := yields_enter.mpr fun _ => ⟨Cursor.stocked_withDepth.mpr hc, rfl⟩

instance {p : Parser α} [hp : Stocks src P p] : Stocks src P (bracketed p) where
  yields c hc := by
    have hlevel := hc.level
    rw [yields_bracketed]
    refine (hp.yields _ (hc.withExprLevel (by omega))).mono fun _ c₁ ⟨h₁, heq⟩ => ?_
    rw [Cursor.withExprLevel_exprLevel] at heq
    refine ⟨h₁.withExprLevel (by omega), ?_⟩
    rw [Cursor.withExprLevel_exprLevel]
    omega

instance {p : Parser α} [hp : Stocks src P p] : Stocks src P (inHeader p) where
  yields c hc := by
    rw [yields_inHeader]
    refine (hp.yields _ (hc.withExprLevel (Int.le_refl _))).mono fun _ c₁ hgot => ?_
    exact ⟨hgot.1.withExprLevel hc.level, rfl⟩

end Steps

/-! ## Repetition -/

section Lists

variable {item : Parser α} [hitem : Stocks src P item]
include hitem

/-- A list keeps what its items keep. -/
theorem Stocks.list {list : Parser (List α)} {c : Cursor} (hc : c.Stocked src P)
    (hlist : ∀ {I : Cursor → Prop}, (∀ c, I c → I c.advance) →
      (∀ c, I c → Yields item c fun _ c' => I c' ∧ True) → I c →
      Yields list c fun items c' => I c' ∧ ∀ _ ∈ items, True) :
    Yields list c fun _ c' => c.Onward src P c' := by
  refine (hlist (I := c.Onward src P) ?_ ?_ hc.onward).mono fun _ _ hgot => hgot.1
  · exact fun c₁ h₁ => ⟨h₁.1.advance, h₁.2⟩
  · intro c₁ h₁
    refine (hitem.yields c₁ h₁.1).mono fun _ c₂ h₂ => ?_
    exact ⟨⟨h₂.1, h₂.2.trans h₁.2⟩, trivial⟩

instance : Stocks src P (commaList item) where
  yields _ hc := Stocks.list hc fun hadvance hitem hI => yields_commaList hadvance hitem hI

instance {close : Mark} : Stocks src P (commaListUntil close item) where
  yields _ hc := Stocks.list hc fun hadvance hitem hI => yields_commaListUntil hadvance hitem hI

instance {close : Mark} : Stocks src P (moreUntil close item) where
  yields _ hc := Stocks.list hc fun hadvance hitem hI => yields_moreUntil hadvance hitem hI

instance {close : Mark} : Stocks src P (endedListUntil close item) where
  yields _ hc := Stocks.list hc fun hadvance hitem hI => yields_endedListUntil hadvance hitem hI

end Lists

theorem Stocks.collect {round : Parser (Round α)} (hround : Stocks src P round) :
    Stocks src P (collect round) where
  yields c hc := by
    refine (yields_collect_all (I := c.Onward src P) (Q := fun _ => True) hc.onward
      fun c₁ h₁ => ?_).mono fun _ _ hgot => hgot.1
    refine (hround.yields c₁ h₁.1).mono fun _ c₂ h₂ => ?_
    exact ⟨⟨h₂.1, h₂.2.trans h₁.2⟩, fun _ _ => trivial⟩

instance {round : Parser (Round α)} [hround : Stocks src P round] : Stocks src P (collect round) :=
  hround.collect

/--
The rounds of a chain may offer what they make, if that is in `P`. What a round builds
on has grown from what the chain started with.
-/
theorem yields_extend_grown {round : Expr → Parser (Option Expr)} {x : Expr} {c : Cursor}
    (hc : c.Stocked src P) (hround : ∀ y, Offers src P (round y))
    (hP : ∀ {y c'}, Grown round x c y c' → P y) :
    Yields (extend round x) c fun _ c' => c.Onward src P c' := by
  refine yields_extend_until (I := fun y c₁ => c.Onward src P c₁ ∧ Grown round x c y c₁)
    ⟨hc.onward, .refl⟩ fun y c₁ ⟨h₁, hgrown⟩ => ?_
  intro b c₂ hrun
  obtain ⟨hstocked, hlevel⟩ := (hround y).yields c₁ h₁.1 b c₂ hrun
  have honward : c.Onward src P c₂ := by
    refine ⟨hstocked fun z hz => ?_, hlevel.trans h₁.2⟩
    obtain rfl : b = some z := hz
    exact hP (hgrown.step hrun)
  refine ⟨fun _ => honward, fun z hb => ⟨honward, ?_⟩⟩
  subst hb
  exact hgrown.step hrun

end Grammar

end GoGloss
