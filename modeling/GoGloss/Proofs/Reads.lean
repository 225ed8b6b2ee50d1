import GoGloss.Proofs.Yields

/-!
# Readers that only the limit stops

A long enough source is refused whatever it says, since it goes deeper than the
nesting limit. `Reads deep p c post` says that nothing else stands in the way: the
reader either succeeds, and what it returns satisfies `post`, or it stops because
the source lies too deep. The latter only if `deep`, which says when that may be.
With `deep` false the reader succeeds.

As for `Yields`, there is one rule for each step that a production takes.
-/

namespace GoGloss.Grammar

variable {α β : Type}

/-- The reader succeeds with `post` from `c`, or it stops at the limit, which needs `deep`. -/
def Reads (deep : Prop) (p : Parser α) (c : Cursor) (post : α → Cursor → Prop) : Prop :=
  match p c with
  | .ok a c' => post a c'
  | .error e _ => deep ∧ e.fault = .tooDeep

variable {deep : Prop} {p : Parser α} {c : Cursor} {post post' : α → Cursor → Prop}

/-- What is read may be weakened. -/
theorem Reads.mono (h : Reads deep p c post) (himp : ∀ a c', post a c' → post' a c') :
    Reads deep p c post' := by
  unfold Reads at h ⊢
  cases hrun : p c with
  | ok a c' =>
      rw [hrun] at h
      exact himp a c' h
  | error e c' =>
      rw [hrun] at h
      exact h

theorem reads_false_iff : Reads False p c post ↔ ∃ a c', p c = .ok a c' ∧ post a c' := by
  unfold Reads
  cases p c <;> simp [and_assoc]

/-- Success is dual to what follows from it. -/
theorem reads_false_iff_not_yields :
    Reads False p c post ↔ ¬ Yields p c fun a c' => ¬ post a c' := by
  simp [reads_false_iff, Yields]

/-! ## Steps -/

@[simp]
theorem reads_pure {a : α} : Reads deep (pure a) c post ↔ post a c := Iff.rfl

@[simp]
theorem reads_bind {q : Parser β} {f : β → Parser α} :
    Reads deep (q >>= f) c post ↔ Reads deep q c fun b c' => Reads deep (f b) c' post := by
  change Reads deep (EStateM.bind q f) c post ↔ _
  unfold Reads EStateM.bind
  cases q c <;> rfl

@[simp]
theorem reads_map {q : Parser β} {f : β → α} :
    Reads deep (f <$> q) c post ↔ Reads deep q c fun b c' => post (f b) c' := by
  rw [map_eq_pure_bind, reads_bind]
  simp only [reads_pure]

@[simp]
theorem reads_discard {post : Unit → Cursor → Prop} :
    Reads deep (discard p) c post ↔ Reads deep p c fun _ c' => post () c' :=
  reads_map (f := fun _ => ())

@[simp]
theorem reads_get {post : Cursor → Cursor → Prop} : Reads deep get c post ↔ post c c := Iff.rfl

@[simp]
theorem reads_set {c' : Cursor} {post : PUnit → Cursor → Prop} :
    Reads deep (set c') c post ↔ post ⟨⟩ c' := Iff.rfl

@[simp]
theorem reads_modify {f : Cursor → Cursor} {post : PUnit → Cursor → Prop} :
    Reads deep (modify f) c post ↔ post ⟨⟩ (f c) := Iff.rfl

@[simp]
theorem reads_failHere {fault : Fault} :
    Reads deep (failHere fault) c post ↔ deep ∧ fault = .tooDeep := Iff.rfl

/-! ## Looking ahead and taking tokens -/

@[simp]
theorem reads_peek {post : Token → Cursor → Prop} :
    Reads deep peek c post ↔ post c.head.token c := Iff.rfl

@[simp]
theorem reads_peekSecond {post : Token → Cursor → Prop} :
    Reads deep peekSecond c post ↔ post c.second c := Iff.rfl

@[simp]
theorem reads_here {post : Nat → Cursor → Prop} :
    Reads deep here c post ↔ post c.head.start c := Iff.rfl

@[simp]
theorem reads_spanFrom {start : Nat} {post : Span → Cursor → Prop} :
    Reads deep (spanFrom start) c post ↔ post (c.spanFrom start) c := Iff.rfl

@[simp]
theorem reads_isAt {t : Token} {post : Bool → Cursor → Prop} :
    Reads deep (isAt t) c post ↔ post (c.head.token = t) c := Iff.rfl

@[simp]
theorem reads_take {post : Span → Cursor → Prop} :
    Reads deep take c post ↔ post c.head.span c.advance := Iff.rfl

@[simp]
theorem reads_eat {t : Token} {post : Option Span → Cursor → Prop} :
    Reads deep (eat t) c post ↔
      if c.head.token = t then post (some c.head.span) c.advance else post none c := by
  by_cases h : c.head.token = t <;> simp [eat, h]

@[simp]
theorem reads_eats {t : Token} {post : Bool → Cursor → Prop} :
    Reads deep (eats t) c post ↔
      if c.head.token = t then post true c.advance else post false c := by
  by_cases h : c.head.token = t <;> simp [eats, h]

theorem reads_expect {t : Token} {post : Span → Cursor → Prop} (h : c.head.token = t)
    (hpost : post c.head.span c.advance) : Reads deep (expect t) c post := by
  simpa [expect, h] using hpost

@[simp]
theorem reads_false_expect {t : Token} {post : Span → Cursor → Prop} :
    Reads False (expect t) c post ↔ c.head.token = t ∧ post c.head.span c.advance := by
  simp [reads_false_iff_not_yields]

theorem reads_name {text : String} {post : Name → Cursor → Prop} (h : c.head.token = .name text)
    (hpost : post ⟨text, c.head.span⟩ (c.advance.withBench (c.bench.addName text))) :
    Reads deep name c post := by
  simpa [name, h, Cursor.withBench, Cursor.advance] using hpost

@[simp]
theorem reads_makeExpr {x : Expr} {post : Expr → Cursor → Prop} :
    Reads deep (makeExpr x) c post ↔ post x (c.withBench (c.bench.addExpr x)) := Iff.rfl

@[simp]
theorem reads_makeField {f : Field} {post : Field → Cursor → Prop} :
    Reads deep (makeField f) c post ↔ post f (c.withBench (c.bench.addField f)) := Iff.rfl

/-! ## Nesting -/

theorem reads_enter {post : Unit → Cursor → Prop} (hdeep : ¬ deep → c.depth < maxDepth)
    (h : c.depth < maxDepth → post () (c.withDepth (c.depth + 1))) : Reads deep enter c post := by
  by_cases hdepth : maxDepth ≤ c.depth
  · have hnot : deep := Classical.byContradiction fun hnot =>
      absurd (hdeep hnot) (Nat.not_lt.mpr hdepth)
    simp [enter, hdepth, hnot]
  · simpa [enter, hdepth, Cursor.withDepth] using h (Nat.lt_of_not_le hdepth)

theorem reads_nested (hdeep : ¬ deep → c.depth < maxDepth)
    (h : c.depth < maxDepth → Reads deep p (c.withDepth (c.depth + 1)) fun a c' =>
      post a (c'.withDepth c.depth)) : Reads deep (nested p) c post := by
  have hinside : Reads deep (do enter; p) c fun a c' => post a (c'.withDepth c.depth) := by
    rw [reads_bind]
    exact reads_enter hdeep h
  simp only [nested, reads_bind, reads_get]
  unfold Reads leavingDepth at *
  cases hrun : (do enter; p : Parser α) c with
  | ok a c' =>
      rw [hrun] at hinside
      exact hinside
  | error e c' =>
      rw [hrun] at hinside
      exact hinside

@[simp]
theorem reads_false_enter {post : Unit → Cursor → Prop} :
    Reads False enter c post ↔ c.depth < maxDepth ∧ post () (c.withDepth (c.depth + 1)) := by
  simp [reads_false_iff_not_yields]

@[simp]
theorem reads_false_nested :
    Reads False (nested p) c post ↔ c.depth < maxDepth ∧
      Reads False p (c.withDepth (c.depth + 1)) fun a c' => post a (c'.withDepth c.depth) := by
  simp [reads_false_iff_not_yields]

@[simp]
theorem reads_bracketed :
    Reads deep (bracketed p) c post ↔
      Reads deep p (c.withExprLevel (c.exprLevel + 1)) fun a c' =>
        post a (c'.withExprLevel (c'.exprLevel - 1)) := by
  simp [bracketed, Cursor.withExprLevel]

/-! ## Repetition -/

/-- A round that adds nothing ends a chain. -/
theorem reads_extendFor_stop {round : α → Parser (Option α)} {clock : List Lexeme} {a : α}
    (h : Reads deep (round a) c fun b c' => b = none ∧ post a c') :
    Reads deep (extendFor round clock a) c post := by
  rw [extendFor.eq_def, reads_bind]
  refine h.mono ?_
  rintro b c' ⟨hb, hpost⟩
  simpa [hb] using hpost

/-- A round that adds something goes on, as long as the clock does. -/
theorem reads_extendFor_step {round : α → Parser (Option α)} {clock : List Lexeme} {a : α}
    (hclock : clock ≠ [])
    (h : Reads deep (round a) c fun b c' =>
      ∃ a', b = some a' ∧ Reads deep (extendFor round clock.tail a') c' post) :
    Reads deep (extendFor round clock a) c post := by
  obtain ⟨l, clock, rfl⟩ := List.exists_cons_of_ne_nil hclock
  rw [extendFor.eq_def, reads_bind]
  refine h.mono ?_
  rintro b c' ⟨a', hb, hrest⟩
  simpa [hb] using hrest

theorem reads_extend_iff {round : α → Parser (Option α)} {a : α} :
    Reads deep (extend round a) c post ↔ Reads deep (extendFor round c.rest a) c post := by
  simp [extend]

/-- A list whose first round ends it. -/
theorem reads_collectFor_stop {round : Parser (Round α)} {clock : List Lexeme} {items : List α}
    {post : List α → Cursor → Prop}
    (h : Reads deep round c fun r c' =>
      r.goesOn = false ∧ post (r.items items.reverse) c') :
    Reads deep (collectFor round clock items) c post := by
  rw [collectFor.eq_def, reads_bind]
  refine h.mono ?_
  rintro r c' ⟨hlast, hpost⟩
  cases r with
  | done | last => simpa [Round.items] using hpost
  | more item => simp [Round.goesOn] at hlast

theorem reads_collect_once {round : Parser (Round α)} {post : List α → Cursor → Prop}
    (h : Reads deep round c fun r c' => r.goesOn = false ∧ post (r.items []) c') :
    Reads deep (collect round) c post := by
  rw [collect, reads_bind, reads_get]
  exact reads_collectFor_stop h

/-- A list that goes on after its first round, as long as the clock does. -/
theorem reads_collectFor_step {round : Parser (Round α)} {clock : List Lexeme} {items : List α}
    {post : List α → Cursor → Prop} (hclock : clock ≠ [])
    (h : Reads deep round c fun r c' => ∃ item, r = .more item ∧
      Reads deep (collectFor round clock.tail (item :: items)) c' post) :
    Reads deep (collectFor round clock items) c post := by
  obtain ⟨l, clock, rfl⟩ := List.exists_cons_of_ne_nil hclock
  rw [collectFor.eq_def, reads_bind]
  refine h.mono ?_
  rintro r c' ⟨item, hr, hrest⟩
  simpa [hr] using hrest

/-! ## Whole sources -/

/-- A source without flaws is accepted, or refused for nothing but the limit. -/
theorem Reads.read {src : String} {good : α → Prop}
    (h : Reads deep p (Cursor.start (tokenize src) src.utf8ByteSize) fun a _ => good a)
    (hflaws : lexicalDiagnostics (tokenize src) = []) :
    (∃ f, Fragment.read p src = .ok f ∧ good f.root) ∨
      deep ∧ ∃ e span, Fragment.read p src = .error e ∧
        e.diagnostics = [⟨.parsing, span, Fault.tooDeep.message⟩] := by
  unfold Reads at h
  cases hrun : p (Cursor.start (tokenize src) src.utf8ByteSize) with
  | ok root c' =>
      rw [hrun] at h
      exact .inl ⟨⟨root, c'.bench⟩, by simp [Fragment.read, hrun, hflaws], h⟩
  | error e c' =>
      rw [hrun] at h
      obtain ⟨hdeep, hfault⟩ := h
      refine .inr ⟨hdeep, _, e.span, by simp [Fragment.read, hrun, hflaws]; rfl, ?_⟩
      simp [Failure.of, SyntaxError.diagnostic, hfault]

end GoGloss.Grammar
