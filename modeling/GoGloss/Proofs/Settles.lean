import GoGloss.Proofs.Yields

/-!
# However a reader ends

`Yields` speaks of readers that succeed. What a failed reading tells its user is a
fact about the other outcome, and a fault may come from anywhere in a production,
so here both outcomes are followed at once: `Settles p c post stop` says that the
result and the cursor satisfy `post` when the reader succeeds from `c`, and that
the error it stops with satisfies `stop` otherwise.

The lemmas below have the form of those for `Yields`: what has to hold before a
step for the two to hold after it. Loops are the exception, as there one invariant
has to be given for all rounds.
-/

namespace GoGloss.Grammar

variable {α β : Type}

/-- However the reader ends from `c`: with a result in `post` or an error in `stop`. -/
def Settles (p : Parser α) (c : Cursor) (post : α → Cursor → Prop) (stop : SyntaxError → Prop) :
    Prop :=
  match p c with
  | .ok a c' => post a c'
  | .error e _ => stop e

variable {c : Cursor} {post : α → Cursor → Prop} {stop : SyntaxError → Prop}

/-- What a reader ends with may be weakened, and it is what the reader came to. -/
theorem Settles.mono_run {p : Parser α} {post' : α → Cursor → Prop} (h : Settles p c post stop)
    (himp : ∀ a c', p c = .ok a c' → post a c' → post' a c') : Settles p c post' stop := by
  unfold Settles at h ⊢
  split at h
  · exact himp _ _ ‹_› h
  · exact h

theorem Settles.mono {p : Parser α} {post' : α → Cursor → Prop} (h : Settles p c post stop)
    (himp : ∀ a c', post a c' → post' a c') : Settles p c post' stop :=
  h.mono_run fun a c' _ => himp a c'

/-- What a reader ends with when it succeeds. -/
theorem Settles.yields {p : Parser α} (h : Settles p c post stop) : Yields p c post := by
  intro a c' hrun
  rwa [Settles, hrun] at h

/-! ## Steps -/

@[simp]
theorem settles_pure {a : α} : Settles (pure a) c post stop ↔ post a c := Iff.rfl

@[simp]
theorem settles_bind {p : Parser β} {f : β → Parser α} :
    Settles (p >>= f) c post stop ↔ Settles p c (fun b c' => Settles (f b) c' post stop) stop := by
  change (match EStateM.bind p f c with | .ok a c' => post a c' | .error e _ => stop e) ↔ _
  unfold Settles EStateM.bind
  cases p c <;> rfl

@[simp]
theorem settles_map {p : Parser β} {f : β → α} :
    Settles (f <$> p) c post stop ↔ Settles p c (fun b c' => post (f b) c') stop := by
  rw [map_eq_pure_bind, settles_bind]
  simp only [settles_pure]

@[simp]
theorem settles_discard {p : Parser β} {post : Unit → Cursor → Prop} :
    Settles (discard p) c post stop ↔ Settles p c (fun _ c' => post () c') stop :=
  settles_map (f := fun _ => ())

@[simp]
theorem settles_ite {b : Prop} [Decidable b] {p q : Parser α} :
    Settles (if b then p else q) c post stop ↔
      (b → Settles p c post stop) ∧ (¬ b → Settles q c post stop) := by
  by_cases hb : b <;> simp [hb]

@[simp]
theorem settles_get {post : Cursor → Cursor → Prop} : Settles get c post stop ↔ post c c := Iff.rfl

@[simp]
theorem settles_set {c' : Cursor} {post : PUnit → Cursor → Prop} :
    Settles (set c') c post stop ↔ post ⟨⟩ c' := Iff.rfl

@[simp]
theorem settles_modify {f : Cursor → Cursor} {post : PUnit → Cursor → Prop} :
    Settles (modify f) c post stop ↔ post ⟨⟩ (f c) := Iff.rfl

@[simp]
theorem settles_failAt {span : Span} {fault : Fault} :
    Settles (failAt span fault) c post stop ↔ stop ⟨fault, span⟩ := Iff.rfl

@[simp]
theorem settles_failHere {fault : Fault} :
    Settles (failHere fault) c post stop ↔ stop ⟨fault, c.head.span⟩ := by
  simp [failHere]

@[simp]
theorem settles_failExpected {wanted : Wanted} :
    Settles (failExpected wanted) c post stop ↔
      stop ⟨.expected wanted c.head, c.head.span⟩ := by
  simp [failExpected]

/-! ## Looking ahead and taking tokens -/

@[simp]
theorem settles_peek {post : Token → Cursor → Prop} :
    Settles peek c post stop ↔ post c.head.token c := by
  simp [peek]

@[simp]
theorem settles_peekSecond {post : Token → Cursor → Prop} :
    Settles peekSecond c post stop ↔ post c.second c := by
  simp [peekSecond]

@[simp]
theorem settles_here {post : Nat → Cursor → Prop} :
    Settles here c post stop ↔ post c.head.start c := by
  simp [here]

@[simp]
theorem settles_spanFrom {start : Nat} {post : Span → Cursor → Prop} :
    Settles (spanFrom start) c post stop ↔ post (c.spanFrom start) c := by
  simp [spanFrom]

@[simp]
theorem settles_isAt {t : Token} {post : Bool → Cursor → Prop} :
    Settles (isAt t) c post stop ↔ post (c.head.token = t) c := by
  simp [isAt]

@[simp]
theorem settles_take {post : Span → Cursor → Prop} :
    Settles take c post stop ↔ post c.head.span c.advance := by
  simp [take]

@[simp]
theorem settles_eat {t : Token} {post : Option Span → Cursor → Prop} :
    Settles (eat t) c post stop ↔
      (c.head.token = t → post (some c.head.span) c.advance) ∧
      (c.head.token ≠ t → post none c) := by
  simp [eat]

@[simp]
theorem settles_eats {t : Token} {post : Bool → Cursor → Prop} :
    Settles (eats t) c post stop ↔
      (c.head.token = t → post true c.advance) ∧ (c.head.token ≠ t → post false c) := by
  simp [eats]

@[simp]
theorem settles_expect {t : Token} {post : Span → Cursor → Prop} :
    Settles (expect t) c post stop ↔
      (c.head.token = t → post c.head.span c.advance) ∧
      (c.head.token ≠ t → stop ⟨.expected (.token t) c.head, c.head.span⟩) := by
  simp [expect]

theorem settles_expectEnd {post : Unit → Cursor → Prop}
    (htake : c.head.token = .mark .semicolon → post () c.advance) (hleave : post () c)
    (hstop : stop ⟨.expected (.token (.mark .semicolon)) c.head, c.head.span⟩) :
    Settles expectEnd c post stop := by
  simp only [expectEnd, settles_bind, settles_peek]
  split <;> simp_all

/-! ## Making nodes -/

@[simp]
theorem settles_makeExpr {x : Expr} {post : Expr → Cursor → Prop} :
    Settles (makeExpr x) c post stop ↔ post x (c.withBench (c.bench.addExpr x)) := by
  simp [makeExpr, Cursor.withBench]

@[simp]
theorem settles_makeStmt {s : Stmt} {post : Stmt → Cursor → Prop} :
    Settles (makeStmt s) c post stop ↔ post s (c.withBench (c.bench.addStmt s)) := by
  simp [makeStmt, Cursor.withBench]

@[simp]
theorem settles_makeDecl {d : Decl} {post : Decl → Cursor → Prop} :
    Settles (makeDecl d) c post stop ↔ post d (c.withBench (c.bench.addDecl d)) := by
  simp [makeDecl, Cursor.withBench]

@[simp]
theorem settles_makeField {f : Field} {post : Field → Cursor → Prop} :
    Settles (makeField f) c post stop ↔ post f (c.withBench (c.bench.addField f)) := by
  simp [makeField, Cursor.withBench]

theorem settles_mapM_makeField {fs : List Field} {post : List Field → Cursor → Prop}
    (h : ∀ w, post fs (c.withBench w)) : Settles (fs.mapM makeField) c post stop := by
  induction fs generalizing c post with
  | nil => exact settles_pure.mpr (h c.bench)
  | cons f fs ih =>
      simp only [List.mapM_cons, settles_bind, settles_makeField]
      exact ih fun w => settles_pure.mpr (h w)

theorem settles_forM_makeExpr {xs : List Expr} {post : Unit → Cursor → Prop}
    (h : ∀ w, post () (c.withBench w)) :
    Settles (xs.forM fun x => discard (makeExpr x)) c post stop := by
  induction xs generalizing c with
  | nil => exact settles_pure.mpr (h c.bench)
  | cons x xs ih =>
      simp only [List.forM, settles_bind, settles_discard, settles_makeExpr]
      exact ih fun w => h w

theorem settles_name {post : Name → Cursor → Prop} :
    Settles name c post stop ↔
      (∀ text, c.head.token = .name text →
        post ⟨text, c.head.span⟩ (c.advance.withBench (c.bench.addName text))) ∧
      ((∀ text, c.head.token ≠ .name text) → stop ⟨.expected .name c.head, c.head.span⟩) := by
  simp only [name, settles_bind, settles_peek]
  split
  · simp_all [Cursor.withBench, Cursor.advance]
  · simp_all

theorem settles_textLiteral? {post : Option Literal → Cursor → Prop} :
    Settles textLiteral? c post stop ↔
      (∀ kind text, c.head.token = .literal kind text → kind.isText →
        post (some ⟨kind, c.head.span, text⟩) c.advance) ∧
      (c.head.token.isTextLiteral = false → post none c) := by
  simp only [textLiteral?, settles_bind, settles_peek]
  split <;> simp_all [Token.isTextLiteral]

/-! ## Nesting -/

@[simp]
theorem settles_enter {post : Unit → Cursor → Prop} :
    Settles enter c post stop ↔
      (c.depth < maxDepth → post () (c.withDepth (c.depth + 1))) ∧
      (maxDepth ≤ c.depth → stop ⟨.tooDeep, c.head.span⟩) := by
  simp [enter, Cursor.withDepth]
  exact and_comm

@[simp]
theorem settles_leavingDepth {n : Nat} {p : Parser α} :
    Settles (leavingDepth n p) c post stop ↔
      Settles p c (fun a c' => post a (c'.withDepth n)) stop := by
  unfold Settles leavingDepth
  cases p c <;> rfl

@[simp]
theorem settles_nested {p : Parser α} :
    Settles (nested p) c post stop ↔
      (c.depth < maxDepth →
        Settles p (c.withDepth (c.depth + 1)) (fun a c' => post a (c'.withDepth c.depth)) stop) ∧
      (maxDepth ≤ c.depth → stop ⟨.tooDeep, c.head.span⟩) := by
  simp [nested]

@[simp]
theorem settles_leavingExprLevel {i : Int} {p : Parser α} :
    Settles (leavingExprLevel i p) c post stop ↔
      Settles p c (fun a c' => post a (c'.withExprLevel i)) stop := by
  simp [leavingExprLevel, Cursor.withExprLevel]

@[simp]
theorem settles_bracketed {p : Parser α} :
    Settles (bracketed p) c post stop ↔
      Settles p (c.withExprLevel (c.exprLevel + 1))
        (fun a c' => post a (c'.withExprLevel (c'.exprLevel - 1))) stop := by
  simp [bracketed, Cursor.withExprLevel]

@[simp]
theorem settles_inHeader {p : Parser α} :
    Settles (inHeader p) c post stop ↔
      Settles p (c.withExprLevel (-1)) (fun a c' => post a (c'.withExprLevel c.exprLevel))
        stop := by
  simp [inHeader, Cursor.withExprLevel]

/-! ## Repetition -/

/-- Rounds that keep `I` of the items read so far, or stop in `stop`. -/
theorem settles_collect {round : Parser (Round α)} {I : List α → Cursor → Prop} (hstart : I [] c)
    (hround : ∀ as c, I as c → Settles round c (fun r c' => I (r.items as) c') stop)
    (hstalled : ∀ as c, I as c → stop ⟨.stalled, c.head.span⟩) :
    Settles (collect round) c I stop := by
  suffices hfor : ∀ clock items c, I items.reverse c →
      Settles (collectFor round clock items) c I stop by
    simpa [collect] using hfor c.rest [] c hstart
  intro clock
  induction clock with
  | nil =>
      intro items c hc
      rw [collectFor, settles_bind]
      refine (hround _ c hc).mono fun r c' hr => ?_
      cases r with
      | done => exact hr
      | last item => simpa [Round.items] using hr
      | more item => simpa using hstalled _ c' hr
  | cons l clock ih =>
      intro items c hc
      rw [collectFor, settles_bind]
      refine (hround _ c hc).mono fun r c' hr => ?_
      cases r with
      | done => exact hr
      | last item => simpa [Round.items] using hr
      | more item => exact ih _ c' (by simpa [Round.items] using hr)

/-- Rounds that keep `I` of what was built so far, or stop in `stop`. -/
theorem settles_extend {round : α → Parser (Option α)} {I : α → Cursor → Prop} {a : α}
    (hstart : I a c)
    (hround : ∀ a c, I a c → Settles (round a) c (fun b c' => I (b.getD a) c') stop)
    (hstalled : ∀ a c, I a c → stop ⟨.stalled, c.head.span⟩) :
    Settles (extend round a) c I stop := by
  suffices hfor : ∀ clock a c, I a c → Settles (extendFor round clock a) c I stop by
    simpa [extend] using hfor c.rest a c hstart
  intro clock
  induction clock with
  | nil =>
      intro a c hinv
      rw [extendFor, settles_bind]
      refine (hround a c hinv).mono fun b c' hb => ?_
      cases b with
      | none => simpa using hb
      | some b => simpa using hstalled b c' hb
  | cons l clock ih =>
      intro a c hinv
      rw [extendFor, settles_bind]
      refine (hround a c hinv).mono fun b c' hb => ?_
      cases b with
      | none => simpa using hb
      | some b => exact ih b c' hb

/-! ## Whole sources -/

/-- A reader at the start of a source, and what comes of it. -/
theorem Settles.read {p : Parser α} {src : String}
    (h : Settles p (Cursor.start (tokenize src) src.utf8ByteSize) post stop) :
    (∃ a c', p (Cursor.start (tokenize src) src.utf8ByteSize) = .ok a c' ∧ post a c') ∨
    ∃ e c', p (Cursor.start (tokenize src) src.utf8ByteSize) = .error e c' ∧ stop e := by
  unfold Settles at h
  split at h
  · exact .inl ⟨_, _, ‹_›, h⟩
  · exact .inr ⟨_, _, ‹_›, h⟩

end GoGloss.Grammar
