import GoGloss.Proofs.Headers
import GoGloss.Proofs.Makes
import GoGloss.Proofs.Shapes

/-!
# Readers at a level

The expression level is raised in brackets and put below zero in headers, and both
are undone. `AtLevel i q p good` says what comes of it for two readers that start at
the level `i`: `q` does what `p` does, and when they succeed they are back at `i` and
what was read is `good`. The two differ only in what they do with a statement that is
called for at a level where none should be.

Nearly all that is read is good in the same way: the trees in it may stand by
themselves and fit the level. `Behaves` says it of two readers and is a class, so that
it is inferred along the steps of a production. What one step has read goes into the
next as a `Fitted` value, which brings the knowledge about it along.
-/

namespace GoGloss

/-- A tree that may stand by itself and fits an expression level. -/
structure Node.Sound (i : Int) (n : Node) : Prop where
  stands : n.Stands
  fits : n.Fits i

theorem Node.Sound.mono {i j : Int} {n : Node} (h : n.Sound i) (hij : j < 0 → i < 0) : n.Sound j :=
  ⟨h.stands, h.fits.mono hij⟩

namespace Grammar

variable {α β : Type}

/-! ## Readers and levels -/

/-- At the level `i`, `q` does what `p` does, keeps the level, and reads what is `good`. -/
def AtLevel (i : Int) (q p : Parser α) (good : α → Prop) : Prop :=
  ∀ c, c.exprLevel = i → q c = p c ∧ Yields p c fun a c' => c'.exprLevel = i ∧ good a

/-- A reader that keeps the level, whatever it is. -/
class KeepsLevel (p : Parser α) : Prop where
  yields : ∀ c, Yields p c fun _ c' => c'.exprLevel = c.exprLevel

instance : KeepsLevel (get : Parser Cursor) := ⟨by simp⟩
instance : KeepsLevel (peek : Parser Token) := ⟨by simp⟩
instance : KeepsLevel (peekSecond : Parser Token) := ⟨by simp⟩
instance : KeepsLevel (here : Parser Nat) := ⟨by simp⟩
instance (start : Nat) : KeepsLevel (spanFrom start : Parser Span) := ⟨by simp⟩
instance (t : Token) : KeepsLevel (isAt t : Parser Bool) := ⟨by simp⟩
instance : KeepsLevel (take : Parser Span) := ⟨by simp⟩
instance (t : Token) : KeepsLevel (eat t : Parser (Option Span)) := ⟨by simp⟩
instance (t : Token) : KeepsLevel (eats t : Parser Bool) := ⟨by simp⟩
instance (t : Token) : KeepsLevel (expect t : Parser Span) := ⟨by simp⟩
instance : KeepsLevel (expectEnd : Parser Unit) := ⟨by simp [yields_expectEnd]⟩
instance : KeepsLevel name := ⟨by simp [yields_name]⟩
instance : KeepsLevel (textLiteral? : Parser (Option Literal)) := ⟨by simp [yields_textLiteral?]⟩
instance : KeepsLevel (enter : Parser Unit) := ⟨by simp⟩
instance {p : Parser α} [h : KeepsLevel p] : KeepsLevel (discard p) :=
  ⟨fun c => yields_discard.mpr (h.yields c)⟩
instance (fs : List Field) : KeepsLevel (fs.mapM makeField) :=
  ⟨fun _ => yields_mapM_makeField fun _ _ => rfl⟩
instance (xs : List Expr) : KeepsLevel (xs.forM fun x => discard (makeExpr x)) :=
  ⟨fun _ => yields_forM_makeExpr fun _ _ => rfl⟩
instance (xs : List Expr) : KeepsLevel (oneExpr xs) := ⟨by simp [yields_oneExpr]⟩
instance (part : HeaderPart) (s : Stmt) : KeepsLevel (headerExpr part s) :=
  ⟨by simp [yields_headerExpr_iff]⟩
instance (post : Option Stmt) : KeepsLevel (checkPost post) := ⟨fun _ => yields_checkPost rfl⟩

/-- Readers that do the same here do the same with the same steps after them. -/
theorem bind_apply_congr {p q : Parser α} {f : α → Parser β} {c : Cursor} (h : q c = p c) :
    (q >>= f) c = (p >>= f) c := by
  change EStateM.bind q f c = EStateM.bind p f c
  unfold EStateM.bind
  rw [h]

namespace AtLevel

variable {i : Int} {p q p' q' : Parser α} {f g : α → Parser β} {good good' : α → Prop}
  {goodAfter : β → Prop}

theorem mono (h : AtLevel i q p good) (himp : ∀ a, good a → good' a) : AtLevel i q p good' :=
  fun c hc => ⟨(h c hc).1, (h c hc).2.mono fun a _ hgot => ⟨hgot.1, himp a hgot.2⟩⟩

/-- What was read aside, the level is kept. -/
theorem keeps (h : AtLevel i q p good) : AtLevel i q p fun _ => True :=
  h.mono fun _ _ => trivial

/-- Something that is known of a reader anyway. -/
theorem and (h : AtLevel i q p good) (h' : Makes p good') :
    AtLevel i q p fun a => good a ∧ good' a :=
  fun c hc => ⟨(h c hc).1, fun a c' hrun =>
    ⟨((h c hc).2 a c' hrun).1, ((h c hc).2 a c' hrun).2, h' c a c' hrun⟩⟩

theorem bind (h : AtLevel i q p good) (hf : ∀ a, good a → AtLevel i (g a) (f a) goodAfter) :
    AtLevel i (q >>= g) (p >>= f) goodAfter := by
  intro c hc
  obtain ⟨hsame, hyields⟩ := h c hc
  have hrest : ∀ a c', p c = .ok a c' → g a c' = f a c' ∧
      Yields (f a) c' fun b c'' => c''.exprLevel = i ∧ goodAfter b := by
    intro a c' hrun
    obtain ⟨hlevel, ha⟩ := hyields a c' hrun
    exact hf a ha c' hlevel
  refine ⟨?_, yields_bind.mpr fun a c' hrun => (hrest a c' hrun).2⟩
  change EStateM.bind q g c = EStateM.bind p f c
  unfold EStateM.bind
  rw [hsame]
  cases hrun : p c with
  | ok a c' => exact (hrest a c' hrun).1
  | error e c' => rfl

/-- A step that holds no other production, with what is known of its result. -/
theorem of_yields [h : KeepsLevel p] (hgood : ∀ c, c.exprLevel = i → Yields p c fun a _ => good a) :
    AtLevel i p p good :=
  fun c hc => ⟨rfl, fun a c' hrun => ⟨(h.yields c a c' hrun).trans hc, hgood c hc a c' hrun⟩⟩

/-- A step before the rest of a production. -/
theorem after [KeepsLevel p] (hf : ∀ a, AtLevel i (g a) (f a) goodAfter) :
    AtLevel i (p >>= g) (p >>= f) goodAfter := by
  have hstep : AtLevel i p p fun _ => True := of_yields fun _ _ => yields_true
  exact hstep.bind fun a _ => hf a

theorem pure {a : α} (h : good a) : AtLevel i (Pure.pure a) (Pure.pure a) good :=
  fun _ hc => ⟨rfl, yields_pure.mpr ⟨hc, h⟩⟩

theorem map {f : α → β} (h : AtLevel i q p good) (hf : ∀ a, good a → goodAfter (f a)) :
    AtLevel i (f <$> q) (f <$> p) goodAfter := by
  rw [map_eq_pure_bind, map_eq_pure_bind]
  exact h.bind fun a ha => pure (hf a ha)

theorem ite {cond : Prop} [Decidable cond] (h : cond → AtLevel i q p good)
    (h' : ¬ cond → AtLevel i q' p' good) :
    AtLevel i (if cond then q else q') (if cond then p else p') good := by
  split
  · exact h ‹_›
  · exact h' ‹_›

/-- A reader that stops. -/
theorem of_fails (h : ∀ c post, Yields p c post) : AtLevel i p p good :=
  fun c _ => ⟨rfl, h c _⟩

/-! ### Nesting, brackets and headers -/

theorem leavingDepth {n : Nat} (h : AtLevel i q p good) :
    AtLevel i (Grammar.leavingDepth n q) (Grammar.leavingDepth n p) good := by
  intro c hc
  obtain ⟨hsame, hyields⟩ := h c hc
  refine ⟨?_, yields_leavingDepth.mpr hyields⟩
  unfold Grammar.leavingDepth
  rw [hsame]

theorem nested (h : AtLevel i q p good) :
    AtLevel i (Grammar.nested q) (Grammar.nested p) good :=
  after fun _ => leavingDepth (after fun _ => h)

/-- Brackets raise the level by one. -/
theorem bracketed (h : AtLevel (i + 1) q p good) :
    AtLevel i (Grammar.bracketed q) (Grammar.bracketed p) good := by
  intro c hc
  obtain ⟨hsame, hyields⟩ := h (c.withExprLevel (c.exprLevel + 1)) (by simp [hc])
  refine ⟨bind_apply_congr hsame, yields_bracketed.mpr (hyields.mono fun a c' hgot => ⟨?_, hgot.2⟩)⟩
  simp [hgot.1]

/-- A header is read at the level below zero, whatever the level around it. -/
theorem inHeader (h : AtLevel (-1) q p good) :
    AtLevel i (Grammar.inHeader q) (Grammar.inHeader p) good := by
  intro c hc
  obtain ⟨hsame, hyields⟩ := h (c.withExprLevel (-1)) rfl
  exact ⟨bind_apply_congr hsame, yields_inHeader.mpr (hyields.mono fun a c' hgot => ⟨hc, hgot.2⟩)⟩

/-! ### Repetition -/

theorem collect {q p : Parser (Round α)}
    (h : AtLevel i q p fun round => ∀ a ∈ round.item?, good a) :
    AtLevel i (Grammar.collect q) (Grammar.collect p) fun items => ∀ a ∈ items, good a := by
  have hfor : ∀ (clock : List Lexeme) (items : List α), (∀ a ∈ items, good a) →
      AtLevel i (collectFor q clock items) (collectFor p clock items)
        fun items => ∀ a ∈ items, good a := by
    intro clock
    induction clock with
    | nil =>
        intro items hitems
        rw [collectFor, collectFor]
        refine h.bind fun round hround => ?_
        cases round with
        | done => exact pure (by simpa using hitems)
        | last item =>
            have hitem : good item := hround item rfl
            exact pure (by simpa [hitem, or_imp, forall_and] using hitems)
        | more item => exact of_fails fun _ _ => yields_failHere
    | cons l clock ih =>
        intro items hitems
        rw [collectFor, collectFor]
        refine h.bind fun round hround => ?_
        cases round with
        | done => exact pure (by simpa using hitems)
        | last item =>
            have hitem : good item := hround item rfl
            exact pure (by simpa [hitem, or_imp, forall_and] using hitems)
        | more item =>
            exact ih (item :: items) (List.forall_mem_cons.mpr ⟨hround item rfl, hitems⟩)
  exact after fun c => hfor c.rest [] (by simp)

theorem extend {q p : α → Parser (Option α)} {a : α}
    (h : ∀ a, good a → AtLevel i (q a) (p a) fun next => ∀ b ∈ next, good b) (ha : good a) :
    AtLevel i (Grammar.extend q a) (Grammar.extend p a) good := by
  have hfor : ∀ (clock : List Lexeme) (a : α), good a →
      AtLevel i (extendFor q clock a) (extendFor p clock a) good := by
    intro clock
    induction clock with
    | nil =>
        intro a ha
        rw [extendFor, extendFor]
        refine (h a ha).bind fun next hnext => ?_
        cases next with
        | none => exact pure ha
        | some b => exact of_fails fun _ _ => yields_failHere
    | cons l clock ih =>
        intro a ha
        rw [extendFor, extendFor]
        refine (h a ha).bind fun next hnext => ?_
        cases next with
        | none => exact pure ha
        | some b => exact ih b (hnext b rfl)
  exact after fun c => hfor c.rest a ha

theorem commaRound (h : AtLevel i q p good) :
    AtLevel i (Grammar.commaRound q) (Grammar.commaRound p)
      fun round => ∀ a ∈ round.item?, good a := by
  refine h.bind fun a ha => after fun comma => ite (fun _ => pure ?_) fun _ => pure ?_
  · simpa [Round.item?] using ha
  · simpa [Round.item?] using ha

theorem commaListUntil {close : Mark} (h : AtLevel i q p good) :
    AtLevel i (Grammar.commaListUntil close q) (Grammar.commaListUntil close p)
      fun items => ∀ a ∈ items, good a := by
  refine collect (after fun t => ?_)
  split
  · exact pure (by simp [Round.item?])
  · exact ite (fun _ => pure (by simp [Round.item?])) fun _ => h.commaRound

theorem endedListUntil {close : Mark} (h : AtLevel i q p good) :
    AtLevel i (Grammar.endedListUntil close q) (Grammar.endedListUntil close p)
      fun items => ∀ a ∈ items, good a := by
  refine collect (after fun t => ?_)
  split
  · exact pure (by simp [Round.item?])
  · refine ite (fun _ => pure (by simp [Round.item?])) fun _ => h.bind fun a ha => ?_
    exact after fun _ => pure (by simpa [Round.item?] using ha)

end AtLevel

/-! ## Values that fit a level -/

/-- What is asked of a value that is read at an expression level. -/
class Fitting (α : Type) where
  Fits : Int → α → Prop
  mono : ∀ {i j : Int} {a : α}, (j < 0 → i < 0) → Fits i a → Fits j a

/-- Nothing is asked of what holds no tree. -/
instance (priority := low) Fitting.anything : Fitting α :=
  ⟨fun _ _ => True, fun _ _ => trivial⟩

instance : Fitting Expr := ⟨fun i x => (Node.expr x).Sound i, fun hij h => h.mono hij⟩
instance : Fitting Stmt := ⟨fun i s => (Node.stmt s).Sound i, fun hij h => h.mono hij⟩
instance : Fitting Decl := ⟨fun i d => (Node.decl d).Sound i, fun hij h => h.mono hij⟩
instance : Fitting Spec := ⟨fun i s => (Node.spec s).Sound i, fun hij h => h.mono hij⟩
instance : Fitting Field := ⟨fun i f => (Node.field f).Sound i, fun hij h => h.mono hij⟩

section

variable [Fitting α] [Fitting β]

instance : Fitting (Option α) :=
  ⟨fun i o => ∀ a ∈ o, Fitting.Fits i a, fun hij h a ha => Fitting.mono hij (h a ha)⟩

instance : Fitting (List α) :=
  ⟨fun i as => ∀ a ∈ as, Fitting.Fits i a, fun hij h a ha => Fitting.mono hij (h a ha)⟩

instance : Fitting (α × β) :=
  ⟨fun i ab => Fitting.Fits i ab.1 ∧ Fitting.Fits i ab.2,
    fun hij h => ⟨Fitting.mono hij h.1, Fitting.mono hij h.2⟩⟩

instance : Fitting (α ⊕ β) :=
  ⟨fun i => Sum.elim (Fitting.Fits i) (Fitting.Fits i), fun {i j a} hij h => by
    cases a with
    | inl a => exact Fitting.mono (α := α) hij h
    | inr b => exact Fitting.mono (α := β) hij h⟩

instance : Fitting (Round α) :=
  ⟨fun i r => ∀ a ∈ r.item?, Fitting.Fits i a, fun hij h a ha => Fitting.mono hij (h a ha)⟩

end

instance : Fitting Block :=
  ⟨fun i b => Fitting.Fits i b.stmts, fun hij h => Fitting.mono hij h⟩

instance : Fitting ParamEntry :=
  ⟨fun i e => Fitting.Fits i e.unnamedField.type, fun hij h => Fitting.mono hij h⟩

section

variable {i : Int}

@[simp] theorem fits_expr {x : Expr} : Fitting.Fits i x ↔ (Node.expr x).Sound i := .rfl
@[simp] theorem fits_stmt {s : Stmt} : Fitting.Fits i s ↔ (Node.stmt s).Sound i := .rfl
@[simp] theorem fits_decl {d : Decl} : Fitting.Fits i d ↔ (Node.decl d).Sound i := .rfl
@[simp] theorem fits_spec {s : Spec} : Fitting.Fits i s ↔ (Node.spec s).Sound i := .rfl
@[simp] theorem fits_field {f : Field} : Fitting.Fits i f ↔ (Node.field f).Sound i := .rfl
@[simp] theorem fits_option [Fitting α] {o : Option α} :
    Fitting.Fits i o ↔ ∀ a ∈ o, Fitting.Fits i a := .rfl
@[simp] theorem fits_list [Fitting α] {as : List α} :
    Fitting.Fits i as ↔ ∀ a ∈ as, Fitting.Fits i a := .rfl
@[simp] theorem fits_block {b : Block} : Fitting.Fits i b ↔ Fitting.Fits i b.stmts := .rfl

end

/--
The levels at which statements may be read, and whether what is read is judged at all.
Zero is one of the levels, and a bracket leads from one to the next.
-/
structure Levels where
  stmt : Int → Prop
  zero : stmt 0
  succ : ∀ {i : Int}, stmt i → stmt (i + 1)
  judged : Prop

/-- A value that fits a level, if it is judged. -/
class Fit (L : Levels) (i : Int) [Fitting α] (a : α) : Prop where
  fits : L.judged → Fitting.Fits i a

/-- A value with the knowledge that it fits a level. -/
structure Fitted (L : Levels) (i : Int) (α : Type) [Fitting α] where
  val : α
  fit : Fit L i val

attribute [instance] Fitted.fit

variable {L : Levels} {i : Int}

theorem Fit.mono [Fitting α] {j : Int} {a : α} (h : Fit L i a) (hij : j < 0 → i < 0) :
    Fit L j a :=
  ⟨fun hjudged => Fitting.mono hij (h.fits hjudged)⟩

/-- A type without trees, of which nothing is asked. -/
class Treeless (α : Type) [Fitting α] : Prop where
  fits : ∀ (i : Int) (a : α), Fitting.Fits i a

instance : @Treeless α Fitting.anything := @Treeless.mk α Fitting.anything fun _ _ => trivial
instance [Fitting α] [h : Treeless α] : Treeless (Option α) := ⟨fun i _ a _ => h.fits i a⟩

instance (priority := low) [Fitting α] [h : Treeless α] {a : α} : Fit L i a :=
  ⟨fun _ => h.fits i a⟩

section

variable [Fitting α] [Fitting β] {a : α} {b : β}

instance : Fit L i (none : Option α) := ⟨by simp [Fitting.Fits]⟩
instance [h : Fit L i a] : Fit L i (some a) :=
  ⟨fun hj => by simpa [Fitting.Fits] using h.fits hj⟩
instance : Fit L i ([] : List α) := ⟨by simp [Fitting.Fits]⟩
instance {as : List α} [h : Fit L i a] [hs : Fit L i as] : Fit L i (a :: as) :=
  ⟨fun hj => List.forall_mem_cons.mpr ⟨h.fits hj, hs.fits hj⟩⟩
instance [h : Fit L i a] [h' : Fit L i b] : Fit L i (a, b) :=
  ⟨fun hj => ⟨h.fits hj, h'.fits hj⟩⟩
instance {ab : α × β} [h : Fit L i ab] : Fit L i ab.1 := ⟨fun hj => (h.fits hj).1⟩
instance {ab : α × β} [h : Fit L i ab] : Fit L i ab.2 := ⟨fun hj => (h.fits hj).2⟩
instance [h : Fit L i a] : Fit L i (Sum.inl a : α ⊕ β) := ⟨h.fits⟩
instance [h : Fit L i b] : Fit L i (Sum.inr b : α ⊕ β) := ⟨h.fits⟩
instance : Fit L i (Round.done : Round α) := ⟨by simp [Fitting.Fits, Round.item?]⟩
instance [h : Fit L i a] : Fit L i (Round.last a) :=
  ⟨fun hj => by simpa [Fitting.Fits, Round.item?] using h.fits hj⟩
instance [h : Fit L i a] : Fit L i (Round.more a) :=
  ⟨fun hj => by simpa [Fitting.Fits, Round.item?] using h.fits hj⟩

theorem Fit.of_some (h : Fit L i (some a)) : Fit L i a := ⟨fun hj => h.fits hj a rfl⟩
theorem Fit.of_mem {as : List α} (h : Fit L i as) (ha : a ∈ as) : Fit L i a :=
  ⟨fun hj => h.fits hj a ha⟩

end

instance {lbrace rbrace : Span} {stmts : List Stmt} [h : Fit L i stmts] :
    Fit L i (Block.mk lbrace stmts rbrace) :=
  ⟨h.fits⟩

/-! ## Readers of what fits -/

/-- The readers do the same at a level, keep it, and read what fits. -/
class Behaves (L : Levels) (i : Int) [Fitting α] (q p : Parser α) : Prop where
  atLevel : AtLevel i q p (Fit L i)

section

variable [Fitting α] [Fitting β] {p q p' q' : Parser α} {f g : α → Parser β} {good : α → Prop}

theorem Behaves.bind (h : Behaves L i q p)
    (hf : ∀ a, Fit L i a → Behaves L i (g a) (f a)) :
    Behaves L i (q >>= g) (p >>= f) :=
  ⟨h.atLevel.bind fun a ha => (hf a ha).atLevel⟩

theorem Behaves.step [h : Behaves L i q p] (hf : ∀ a, Fit L i a → Behaves L i (g a) (f a)) :
    Behaves L i (q >>= g) (p >>= f) :=
  h.bind hf

/-- After a step of which something else is known. -/
theorem Behaves.after {α : Type} {p q : Parser α} {f g : α → Parser β} {good : α → Prop}
    (h : AtLevel i q p good) (hf : ∀ a, good a → Behaves L i (g a) (f a)) :
    Behaves L i (q >>= g) (p >>= f) :=
  ⟨h.bind fun a ha => (hf a ha).atLevel⟩

instance [h : Behaves L i q p]
    [hf : ∀ a : Fitted L i α, Behaves L i (g a.val) (f a.val)] :
    Behaves L i (q >>= g) (p >>= f) :=
  h.bind fun a ha => hf ⟨a, ha⟩

instance {f : α → β} [h : Behaves L i q p]
    [hf : ∀ a : Fitted L i α, Fit L i (f a.val)] :
    Behaves L i (f <$> q) (f <$> p) :=
  ⟨h.atLevel.map fun a ha => hf ⟨a, ha⟩⟩

instance [h : Behaves L i q p] : Behaves L i (discard q) (discard p) :=
  ⟨h.atLevel.map fun _ _ => inferInstance⟩

instance {cond : Prop} [Decidable cond] [h : Behaves L i q p] [h' : Behaves L i q' p'] :
    Behaves L i (if cond then q else q') (if cond then p else p') :=
  ⟨.ite (fun _ => h.atLevel) fun _ => h'.atLevel⟩

/-- Two ways to get at a value that the same steps go on with. -/
theorem Behaves.join {cond : Prop} [Decidable cond] [h : Behaves L i q p]
    [h' : Behaves L i q' p'] (hf : ∀ a, Fit L i a → Behaves L i (g a) (f a)) :
    Behaves L i (if cond then q >>= g else q' >>= g) (if cond then p >>= f else p' >>= f) :=
  ⟨.ite (fun _ => (h.bind hf).atLevel) fun _ => (h'.bind hf).atLevel⟩

instance {a : α} [h : Fit L i a] : Behaves L i (pure a : Parser α) (pure a) :=
  ⟨.pure h⟩

instance [Treeless α] [KeepsLevel p] : Behaves L i p p :=
  ⟨.of_yields fun _ _ => yields_true.mono fun _ _ _ => inferInstance⟩

instance {x : Expr} [h : Fit L i x] : Behaves L i (makeExpr x) (makeExpr x) :=
  ⟨fun _ hc => ⟨rfl, yields_makeExpr.mpr ⟨hc, h⟩⟩⟩
instance {s : Stmt} [h : Fit L i s] : Behaves L i (makeStmt s) (makeStmt s) :=
  ⟨fun _ hc => ⟨rfl, yields_makeStmt.mpr ⟨hc, h⟩⟩⟩
instance {d : Decl} [h : Fit L i d] : Behaves L i (makeDecl d) (makeDecl d) :=
  ⟨fun _ hc => ⟨rfl, yields_makeDecl.mpr ⟨hc, h⟩⟩⟩
instance {f : Field} [h : Fit L i f] : Behaves L i (makeField f) (makeField f) :=
  ⟨fun _ hc => ⟨rfl, yields_makeField.mpr ⟨hc, h⟩⟩⟩

/-- The steps after making a node know what was made. -/
instance {x : Expr} {f g : Expr → Parser β} [h : Behaves L i (g x) (f x)] :
    Behaves L i (makeExpr x >>= g) (makeExpr x >>= f) := by
  have hmade : AtLevel i (makeExpr x) (makeExpr x) (· = x) :=
    fun _ hc => ⟨rfl, yields_makeExpr.mpr ⟨hc, rfl⟩⟩
  exact .after hmade fun _ hx => hx ▸ h

instance {span : Span} {fault : Fault} :
    Behaves L i (failAt span fault : Parser α) (failAt span fault) :=
  ⟨.of_fails fun _ _ => yields_failAt⟩
instance {fault : Fault} : Behaves L i (failHere fault : Parser α) (failHere fault) :=
  ⟨.of_fails fun _ _ => yields_failHere⟩
instance {wanted : Wanted} :
    Behaves L i (failExpected wanted : Parser α) (failExpected wanted) :=
  ⟨.of_fails fun _ _ => yields_failExpected⟩

instance [h : Behaves L i q p] : Behaves L i (nested q) (nested p) :=
  ⟨.nested h.atLevel⟩

/-- What is read in brackets fits outside of headers. -/
instance [h : Behaves L (i + 1) q p]
    [hf : ∀ a : Fitted L 0 α, Behaves L i (g a.val) (f a.val)] :
    Behaves L i (bracketed q >>= g) (bracketed p >>= f) :=
  .after h.atLevel.bracketed fun a ha => hf ⟨a, ha.mono fun h => absurd h (by decide)⟩

/-! ### Repetition -/

instance {q p : Parser (Round α)} [h : Behaves L i q p] :
    Behaves L i (collect q) (collect p) := by
  have hround : AtLevel i q p fun round => ∀ a ∈ round.item?, Fit L i a :=
    h.atLevel.mono fun _ hround a ha => ⟨fun hj => hround.fits hj a ha⟩
  exact ⟨hround.collect.mono fun _ hitems => ⟨fun hj a ha => (hitems a ha).fits hj⟩⟩

instance {q p : α → Parser (Option α)} {a : α}
    [h : ∀ a : Fitted L i α, Behaves L i (q a.val) (p a.val)] [ha : Fit L i a] :
    Behaves L i (extend q a) (extend p a) :=
  ⟨.extend (fun a ha => (h ⟨a, ha⟩).atLevel.mono fun _ hnext b hb =>
    ⟨fun hj => hnext.fits hj b hb⟩) ha⟩

instance [Behaves L i q p] : Behaves L i (commaRound q) (commaRound p) := by
  unfold commaRound
  infer_instance

instance [Behaves L i q p] : Behaves L i (commaList q) (commaList p) := by
  unfold commaList
  infer_instance

instance {close : Mark} [Behaves L i q p] :
    Behaves L i (moreUntil close q) (moreUntil close p) := by
  unfold moreUntil
  infer_instance

instance {close : Mark} [h : Behaves L i q p] :
    Behaves L i (commaListUntil close q) (commaListUntil close p) :=
  ⟨h.atLevel.commaListUntil.mono fun _ hitems => ⟨fun hj a ha => (hitems a ha).fits hj⟩⟩

instance {close : Mark} [h : Behaves L i q p] :
    Behaves L i (endedListUntil close q) (endedListUntil close p) :=
  ⟨h.atLevel.endedListUntil.mono fun _ hitems => ⟨fun hj a ha => (hitems a ha).fits hj⟩⟩

end

instance : Behaves L i (skipSemicolons : Parser Unit) skipSemicolons := by
  unfold skipSemicolons
  infer_instance

end Grammar

end GoGloss
