import GoGloss.Proofs.Fitting

/-!
# Headers hold no bare composite literals

Every production keeps the expression level. A header is read at the level below zero,
so what stands in it is sealed, and its statement is read at a level of its own.

That no statement is read below zero is said by exchanging it there. `guardedInner`
are the productions with something else, whatever it is, in place of the statements
that would be read below zero. Every source comes to the same with them.
-/

namespace GoGloss

namespace Grammar

/-- Every production that succeeds leaves the level as it found it. -/
theorem Production.exprLevel_eq {α : Type} (p : Production α) {n : Nat} {c c' : Cursor} {a : α}
    (hrun : p.reader (Grammar.inner n) c = .ok a c') : c'.exprLevel = c.exprLevel := by
  have hkeeps : AtLevel c.exprLevel (p.reader (Grammar.inner n)) (p.reader (Grammar.inner n))
      fun _ => True := p.atLevel (L := Levels.all False) id
  exact ((hkeeps c rfl).2 a c' hrun).1

/-! ## Statements outside of headers -/

/-- A statement, or something else below zero. -/
def outsideHeaders (other p : Parser Stmt) : Parser Stmt := fun c =>
  if c.exprLevel < 0 then other c else p c

/-- The productions further in, with something else in place of statements below zero. -/
def Inner.guarded (other : Parser Stmt) (inner : Inner) : Inner :=
  { inner with
    stmt := outsideHeaders other inner.stmt
    ifStmt := outsideHeaders other inner.ifStmt }

/-- The productions for `n` more levels, with something else in place of statements below zero. -/
def guardedInner (other : Parser Stmt) : Nat → Inner
  | 0 => Inner.none.guarded other
  | n + 1 => (Inner.over (guardedInner other n)).guarded other

/-- The levels outside of headers. -/
def Levels.outside : Levels :=
  ⟨fun i => 0 ≤ i, by decide, fun hi => by omega, False⟩

theorem AtLevel.outsideHeaders {i : Int} {other q p : Parser Stmt} {good : Stmt → Prop}
    (hi : 0 ≤ i) (hp : AtLevel i q p good) : AtLevel i (outsideHeaders other q) p good := by
  intro c hc
  obtain ⟨hsame, hyields⟩ := hp c hc
  refine ⟨?_, hyields⟩
  unfold Grammar.outsideHeaders
  rw [if_neg (by omega), hsame]

theorem Inner.AtLevels.guarded {given inner : Inner}
    (hgiven : Inner.AtLevels Levels.outside given inner) (other : Parser Stmt) :
    Inner.AtLevels Levels.outside (given.guarded other) inner where
  binary := hgiven.binary
  unary := hgiven.unary
  type? := hgiven.type?
  literalValue := hgiven.literalValue
  stmt {_ hi} := ⟨hgiven.stmt.atLevel.outsideHeaders hi.mem⟩
  ifStmt {_ hi} := hgiven.ifStmt.outsideHeaders hi.mem

theorem guardedInner_atLevels (other : Parser Stmt) (n : Nat) :
    Inner.AtLevels Levels.outside (guardedInner other n) (Grammar.inner n) := by
  induction n with
  | zero =>
      have hnone : Inner.AtLevels Levels.outside Inner.none Inner.none := inferInstance
      exact hnone.guarded other
  | succ n ih =>
      have hover : Inner.AtLevels Levels.outside (Inner.over (guardedInner other n))
          (Inner.over (Grammar.inner n)) := inferInstance
      exact hover.guarded other

/-- Outside of headers it does not matter what statements below zero are exchanged for. -/
theorem read_guarded {α : Type} (p : Production α) (other : Parser Stmt) (src : String) :
    Fragment.read (p.reader (guardedInner other maxDepth)) src =
      Fragment.read (p.reader (Grammar.inner maxDepth)) src := by
  have hlevel : StmtLevel Levels.outside 0 := ⟨Int.le_refl 0⟩
  have hinner := guardedInner_atLevels other maxDepth
  have hkeeps : AtLevel 0 (p.reader (guardedInner other maxDepth))
      (p.reader (Grammar.inner maxDepth)) fun _ => True := p.atLevel (L := Levels.outside) id
  simp only [Fragment.read, (hkeeps (Cursor.start (tokenize src) src.utf8ByteSize) rfl).1]

end Grammar

open Grammar

/--
Every production that succeeds leaves the expression level as it found it. No
statement is read below zero: whatever stands in for the statements there, every
source comes to the same. So what is in the headers of an accepted source is sealed.
-/
theorem headers_sealed :
    (∀ {α : Type} (p : Production α) (n : Nat) (c c' : Cursor) (a : α),
      p.reader (inner n) c = .ok a c' → c'.exprLevel = c.exprLevel) ∧
    (∀ (other : Parser Stmt) (src : String),
      Fragment.read (Production.wholeExpr.reader (guardedInner other maxDepth)) src =
        parseExpr src ∧
      Fragment.read (Production.wholeDecl.reader (guardedInner other maxDepth)) src =
        parseDecl src ∧
      Fragment.read (Production.wholeStmt.reader (guardedInner other maxDepth)) src =
        parseStmt src) ∧
    ∀ src : String,
      (∀ f, parseExpr src = .ok f → (Node.expr f.root).HeadersSealed) ∧
      (∀ f, parseDecl src = .ok f → (Node.decl f.root).HeadersSealed) ∧
      (∀ f, parseStmt src = .ok f → (Node.stmt f.root).HeadersSealed) := by
  refine ⟨fun p n c c' a hrun => p.exprLevel_eq hrun, fun other src => ?_, fun src => ?_⟩
  · exact ⟨read_guarded .wholeExpr other src, read_guarded .wholeDecl other src,
      read_guarded .wholeStmt other src⟩
  · exact ⟨fun f hf => (fits_of_read (Production.wholeExpr.reader (inner maxDepth)) hf).fits.headers,
      fun f hf => (fits_of_read (Production.wholeDecl.reader (inner maxDepth)) hf).fits.headers,
      fun f hf => (fits_of_read (Production.wholeStmt.reader (inner maxDepth)) hf).fits.headers⟩

/-- A literal of an array in a header, with literals of a name in its elements and its body. -/
theorem headers_sealed_range :
    (∃ a c', Production.ifHeader.reader (inner 4)
        ((Cursor.start (tokenize "f(T\x7b\x7d) \x7b") 9).withExprLevel 5) = .ok a c' ∧
      c'.exprLevel = 5) ∧
    ∃ f, parseStmt "for _, v := range []T\x7b\x7b1\x7d\x7d \x7b v = T\x7b2\x7d \x7d" = .ok f ∧
      (Node.stmt f.root).HeadersSealed := by
  generalize hsrc : "for _, v := range []T\x7b\x7b1\x7d\x7d \x7b v = T\x7b2\x7d \x7d" = src
  have hok : (parseStmt src).toOption.isSome := by
    subst hsrc
    decide +kernel
  constructor
  · generalize hstart : (Cursor.start (tokenize "f(T\x7b\x7d) \x7b") 9).withExprLevel 5 = c
    have hlevel : c.exprLevel = 5 := by rw [← hstart, Cursor.withExprLevel_exprLevel]
    have hread : (Production.ifHeader.reader (inner 4) c) matches .ok .. := by
      subst hstart
      decide +kernel
    cases hrun : Production.ifHeader.reader (inner 4) c with
    | error e c' => simp [hrun] at hread
    | ok a c' => exact ⟨a, c', rfl, (headers_sealed.1 _ _ _ _ _ hrun).trans hlevel⟩
  · cases hf : parseStmt src with
    | error e => simp [hf, Except.toOption] at hok
    | ok f => exact ⟨f, rfl, (headers_sealed.2.2 src).2.2 f hf⟩

end GoGloss
