import GoGloss.Proofs.Placement.Nodes

/-!
# Types lie where they were read
-/

-- What a production infers has as many steps as the production.
set_option synthInstance.maxSize 1000

namespace GoGloss

open Node

namespace Grammar

variable {α : Type} {src : String} {b : Nat} {e : Bool} {c c' : Cursor}

/-! ## Where statements may end -/

/-- A reader that takes tokens, the last of which may end a statement. -/
class Lands (src : String) (p : Parser α) : Prop where
  yields : ∀ c, c.Ready src → Yields p c fun _ c' => c.head.start ≤ c'.lastStop ∧ c'.Landed src

theorem lands_expect {t : Token} (h : t.endsStatement) : Lands src (expect t) :=
  ⟨fun _ hc => yields_expect.mpr fun ht => ⟨hc.head_bounds.2.2.1, hc.landed_advance ht h⟩⟩

instance : Lands src (expect (.mark .rparen)) := lands_expect rfl
instance : Lands src (expect (.mark .rbrack)) := lands_expect rfl
instance : Lands src (expect (.mark .rbrace)) := lands_expect rfl
instance : Lands src name :=
  ⟨fun _ hc => yields_name.mpr fun _ ht => ⟨hc.head_bounds.2.2.1,
    Cursor.same_withBench.landed (hc.landed_advance ht rfl)⟩⟩
instance {p : Parser α} [h : Lands src p] : Lands src (discard p) :=
  ⟨fun c hc => yields_discard.mpr (h.yields c hc)⟩

instance {p : Parser α} [h : Lands src p] : Lands src (bracketed p) :=
  ⟨fun _ hc => yields_bracketed.mpr <|
    (h.yields _ (Cursor.same_withExprLevel.ready hc)).mono fun _ _ hgot =>
      ⟨hgot.1, Cursor.same_withExprLevel.landed hgot.2⟩⟩

instance {p : Parser α} [h : Lands src p] : Steps src p :=
  ⟨fun c hc => (h.yields c hc).mono fun _ _ => And.left⟩

instance [Placed α] {p : Parser α} [h : Lands src p] [hc : c.Ready src] {r : Read src b c p} :
    r.after.Landed src :=
  (h.yields c hc _ _ r.run).2

instance {p : Parser Expr} [h : Nests true src c.head.start c p] {r : Read src b c p} :
    r.after.Landed src := by
  have hgot := h.settles
  rw [Settles, r.run] at hgot
  exact (hgot.framed rfl r.val rfl).landed

instance Read.fills [Placed α] {p : Parser α} [h : Nests e src b c p] (r : Read src b c p) :
    Fills e src b r.after r.val := by
  have hgot := h.settles
  rw [Settles, r.run] at hgot
  exact ⟨hgot.framed⟩

theorem Fills.of_some [Placed α] {o : Option α} {a : α} (h : Fills e src b c o) (ha : o = some a) :
    Fills e src b c a := by
  subst ha
  exact ⟨h.framed⟩

/-- An expression that is one token takes up all bytes from where it was ahead. -/
theorem fills_token [h : Start e b c] [hc : c.Ready src] {x : Expr} (hspan : x.span = c.head.span)
    (hstop : c'.lastStop = c.advance.lastStop) (hlanded : c'.Landed src) : Fills e src b c' x where
  framed he y hy := by
    obtain rfl : x = y := Option.some.inj hy
    refine ⟨fun hsmall => ?_, hlanded⟩
    rw [hspan, hc.head_span hsmall, hstop, h.eq he]

instance [Start e b c] [c.Ready src] (r : Read src b c name) :
    Fills e src b r.after (Expr.ident r.val) := by
  have hname : Yields name c fun n c' => n.pos = c.head.span ∧ c'.lastStop = c.advance.lastStop :=
    yields_name.mpr fun _ _ => ⟨rfl, rfl⟩
  obtain ⟨hpos, hstop⟩ := hname _ _ r.run
  exact fills_token hpos hstop inferInstance

/-! ## Parameter lists -/

/-- An entry of a parameter list lies in `s`, and its name and its type lie in the entry. -/
def ParamEntry.LiesIn (src : String) (s : Span) : ParamEntry → Prop
  | .bare n => n.pos.LiesIn src s
  | .typed n t span =>
    span.LiesIn src s ∧ (∀ m ∈ n, m.pos.LiesIn src span) ∧ (Node.expr t).LiesIn src span

theorem ParamEntry.LiesIn.span_liesIn {s : Span} {e : ParamEntry} (h : e.LiesIn src s) :
    e.span.LiesIn src s := by
  cases e with
  | bare n => exact h
  | typed n t span => exact h.1

instance : Placed ParamEntry where
  inside size e := e.span.Inside size
  lies := ParamEntry.LiesIn
  widen {_ _ _ e} h hstart hstop := by
    cases e with
    | bare n => exact h.widen hstart hstop
    | typed n type span => exact ⟨h.1.widen hstart hstop, h.2⟩

instance {n : Name} [h : Lies src b c n] : Lies src b c (ParamEntry.bare n) := ⟨h.inside, h.lies⟩

instance {n : Option Name} {t : Expr} {s : Span} [hs : IsSpan src b c s] [hn : Lies src b c n]
    [ht : Lies src b c t] : Lies src b c (ParamEntry.typed n t s) where
  inside := hs.inside
  lies hsmall := by
    obtain rfl := hs.eq hsmall
    exact ⟨⟨hs.stretch hsmall, Nat.le_refl _, Nat.le_refl _⟩, hn.lies hsmall, ht.lies hsmall⟩

/-- The entry comes before the other one in the source. -/
def ParamEntry.Before (a b : ParamEntry) : Prop :=
  a.span.stop ≤ b.span.start

/--
A field of a named list starts with the first of the names that waited for its type
and stops with that type.
-/
theorem groupedField_liesIn {waiting : List Name} {n : Name} {t : Expr} {span s : Span}
    (hentry : (ParamEntry.typed (some n) t span).LiesIn src s)
    (hwaiting : ∀ m ∈ waiting, m.pos.LiesIn src s)
    (hbefore : ∀ m ∈ waiting, m.pos.stop ≤ span.start)
    (hordered : waiting.Pairwise fun m m' => m.pos.stop ≤ m'.pos.start) :
    (Node.field ⟨⟨waiting.head?.elim span.start (·.pos.start), span.stop⟩, waiting ++ [n], t,
      none⟩).LiesIn src s := by
  obtain ⟨hspan, hn, ht⟩ := hentry
  generalize hfirst : waiting.head?.elim span.start (·.pos.start) = start
  have hstart : s.start ≤ start ∧ start ≤ span.start ∧ IsBoundary src start ∧
      ∀ m ∈ waiting, start ≤ m.pos.start := by
    cases waiting with
    | nil =>
        obtain rfl : span.start = start := hfirst
        exact ⟨hspan.start_le, Nat.le_refl _, hspan.stretch.start_boundary, by simp⟩
    | cons m ms =>
        obtain rfl : m.pos.start = start := hfirst
        have hm := hwaiting m (.head _)
        have hm' := hbefore m (.head _)
        have hle := hm.stretch.ordered
        refine ⟨hm.start_le, by omega, hm.stretch.start_boundary, ?_⟩
        simp only [List.forall_mem_cons, Nat.le_refl, true_and]
        exact fun m' hmem => Nat.le_trans hle ((List.pairwise_cons.mp hordered).1 m' hmem)
  obtain ⟨hstart, hle, hboundary, hwaits⟩ := hstart
  have hspan_le := hspan.stretch.ordered
  have hstretch : (Span.mk start span.stop).IsStretch src :=
    ⟨Nat.le_trans hle hspan_le, hspan.stretch.stop_le, hboundary, hspan.stretch.stop_boundary⟩
  refine (liesIn_span (s := ⟨start, span.stop⟩) rfl hstretch ?_ ?_).widen hstart hspan.le_stop
  · have hown : n.pos.LiesIn src ⟨start, span.stop⟩ := (hn n rfl).widen hle (Nat.le_refl _)
    simp only [Node.places, Field.places, Option.toList_none, List.map_nil, List.append_nil,
      List.map_append, List.forall_mem_append, List.forall_mem_map]
    refine ⟨fun m hm => ?_, by simpa using hown⟩
    exact ⟨(hwaiting m hm).stretch, hwaits m hm, Nat.le_trans (hbefore m hm) hspan_le⟩
  · have htype : (Node.expr t).LiesIn src ⟨start, span.stop⟩ := ht.widen hle (Nat.le_refl _)
    simpa [children] using htype

/-- Names that wait for their type come before the entries still to be grouped. -/
theorem Grouped.liesIn {waiting : List Name} {s : Span} {entries : List ParamEntry}
    {fields : List Field} (h : Grouped waiting entries fields)
    (hentries : ∀ e ∈ waiting.map ParamEntry.bare ++ entries, e.LiesIn src s)
    (hordered : (waiting.map ParamEntry.bare ++ entries).Pairwise ParamEntry.Before) :
    ∀ f ∈ fields, (Node.field f).LiesIn src s := by
  induction h with
  | nil => simp
  | bare _ ih => exact ih (by simpa using hentries) (by simpa using hordered)
  | typed _ ih =>
      simp only [List.forall_mem_append, List.forall_mem_cons, List.forall_mem_map] at hentries
      simp only [List.pairwise_append, List.pairwise_cons, List.pairwise_map,
        List.forall_mem_map, List.forall_mem_cons] at hordered
      obtain ⟨hwaiting, hentry, hothers⟩ := hentries
      obtain ⟨hnames, ⟨-, hlater⟩, hbefore⟩ := hordered
      refine List.forall_mem_cons.mpr ⟨?_, ih (by simpa using hothers) (by simpa using hlater)⟩
      exact groupedField_liesIn hentry hwaiting (fun m hm => (hbefore m hm).1) hnames

/-- An entry of a list without names is a field as it stands. -/
theorem unnamedField_liesIn {e : ParamEntry} {s : Span} (h : e.LiesIn src s) :
    (Node.field e.unnamedField).LiesIn src s := by
  have hs := h.span_liesIn
  cases e with
  | bare n =>
      have hself : n.pos.LiesIn src n.pos := ⟨hs.stretch, Nat.le_refl _, Nat.le_refl _⟩
      refine (liesIn_span (s := n.pos) rfl hs.stretch ?_ ?_).widen hs.start_le hs.le_stop
      · simp [Node.places, Field.places, ParamEntry.unnamedField]
      · simpa [children, ParamEntry.unnamedField] using leaf_liesIn hself rfl rfl rfl
  | typed n t span =>
      refine (liesIn_span (s := span) rfl hs.stretch ?_ ?_).widen hs.start_le hs.le_stop
      · simp [Node.places, Field.places, ParamEntry.unnamedField]
      · simpa [children, ParamEntry.unnamedField] using h.2.2

theorem groupParams_liesIn {entries : List ParamEntry} {fields : List Field} {s : Span}
    (h : groupParams entries = .ok fields) (hentries : ∀ e ∈ entries, e.LiesIn src s)
    (hordered : entries.Pairwise ParamEntry.Before) :
    ∀ f ∈ fields, (Node.field f).LiesIn src s := by
  unfold groupParams at h
  split at h
  · exact (grouped_of_groupNamed h).liesIn hentries hordered
  · cases h
    intro f hf
    obtain ⟨e, he, rfl⟩ := List.mem_map.mp hf
    exact unnamedField_liesIn (hentries e he)

theorem groupNamed_error_inside {waiting : List Name} {last span : Span}
    {entries : List ParamEntry} (h : groupNamed waiting last entries = .error span)
    (hlast : last.Inside size) (hentries : ∀ e ∈ entries, e.span.Inside size) :
    span.Inside size := by
  induction entries generalizing waiting last with
  | nil =>
      rw [groupNamed] at h
      split at h
      · cases h
      · cases h; exact hlast
  | cons e entries ih =>
      obtain ⟨he, hothers⟩ := List.forall_mem_cons.mp hentries
      cases e with
      | bare name => exact ih h he hothers
      | typed name type s =>
          cases name with
          | none => cases h; exact he
          | some name =>
              simp only [groupNamed] at h
              cases hrest : groupNamed [] s entries with
              | ok fields => rw [hrest] at h; cases h
              | error s' =>
                  rw [hrest] at h
                  cases h
                  exact ih hrest he hothers

/-- The entry at fault is one of those read. -/
theorem groupParams_error_inside {span : Span} {entries : List ParamEntry}
    (h : groupParams entries = .error span) (hentries : ∀ e ∈ entries, e.span.Inside size) :
    span.Inside size := by
  unfold groupParams at h
  split at h
  · exact groupNamed_error_inside h ⟨Nat.le_refl 0, Nat.zero_le size⟩ hentries
  · cases h

/-! ## Productions -/

/-- What the productions one level further in make lies where it was read. -/
class Inner.Nests (src : String) (inner : Inner) : Prop where
  binary : ∀ {e b} {c : Cursor} [c.Ready src] [c.From src b] [Start e b c] (least : Nat),
    Grammar.Nests e src b c (inner.binary least)
  unary : ∀ {e b} {c : Cursor} [c.Ready src] [c.From src b] [Start e b c],
    Grammar.Nests e src b c inner.unary
  type? : ∀ {e b} {c : Cursor} [c.Ready src] [c.From src b] [Start e b c],
    Grammar.Nests e src b c inner.type?
  halts : Halts inner.type?
  literalValue : ∀ {e b} {c : Cursor} {t : Option Expr} [c.Ready src] [c.From src b]
    [Lies src b c t], Grammar.Nests e src b c (inner.literalValue t b)
  stmt : ∀ {b} {c : Cursor} [c.Ready src] [c.From src b], Grammar.Nests false src b c inner.stmt
  ifStmt : ∀ {b} {c : Cursor} [c.Ready src] [c.From src b],
    Grammar.Nests false src b c inner.ifStmt

attribute [instance] Inner.Nests.binary Inner.Nests.unary Inner.Nests.type?
  Inner.Nests.literalValue Inner.Nests.stmt Inner.Nests.ifStmt

variable {inner : Inner} [inner.Nests src] [c.Ready src] [c.From src b] [Start e b c]

instance : Nests e src b c (expr inner) := by
  unfold expr
  infer_instance

instance : Nests false src b c (exprList inner) := by
  unfold exprList
  infer_instance

instance : Nests e src b c (operandUnder inner) := by
  unfold operandUnder
  infer_instance

instance : Nests e src b c (type? inner) := by
  unfold type?
  infer_instance

omit [inner.Nests src] in
theorem type?_halts (h : inner.Nests src) : Halts (type? inner) := by
  have := h.halts
  unfold type?
  infer_instance

instance : Nests e src b c (type inner) := by
  refine .step fun t => ?_
  split
  · rename_i ht
    have := t.lies.of_some ht
    have := (t.fills (e := e)).of_some ht
    infer_instance
  · infer_instance

instance : Nests false src b c (arrayLength inner) := by
  refine .look fun t => ?_
  split <;> infer_instance

instance : Nests e src b c (arrayType inner) := by
  unfold arrayType
  infer_instance

instance : Nests e src b c (mapType inner) := by
  unfold mapType
  infer_instance

instance : Nests e src b c (parenType inner) := by
  unfold parenType
  infer_instance

/-- The type of a parameter starts with its dots. -/
instance : Nests false src b c (paramType inner) := by
  have hc : c.Ready src := inferInstance
  have hstart : Small src → c.head.span.start = c.head.start := fun hsmall => by
    rw [hc.head_span hsmall]
  have : c.advance.From src c.head.span.start := by
    refine ⟨Nat.le_trans (Nat.min_le_left ..) hc.onto_advance.start_le, fun hsmall => ?_⟩
    rw [hstart hsmall]
    exact hc.head_bounds.1
  have : Lies src c.head.span.start c.advance c.head.span :=
    (inferInstance : Lies src c.head.start c.advance c.head.span).mono
      (fun hsmall => Nat.le_of_eq (hstart hsmall)) (Nat.le_refl _)
  have hdots : Nests false src b c.advance (do
      let elem ← type inner
      makeExpr (.ellipsis (← spanFrom c.head.span.start) c.head.span (some elem))) :=
    Nests.widen (d := c.head.span.start) inferInstance
      (fun hsmall => hstart hsmall ▸ Cursor.From.le src) nofun
  unfold paramType
  infer_instance

instance {start : Nat} {t : Expr} [c.From src start] [Lies src start c t] [Fills e src start c t] :
    Nests e src start c (instantiated inner start t) := by
  refine .eats (.step fun first => .step fun others => .step fun _ => .spanFrom ?_) ?_
  · split <;> infer_instance
  · simp only [Bool.false_eq_true, if_false]
    infer_instance

instance : Nests e src b c (typeName inner) := by
  unfold typeName
  infer_instance

instance : Nests false src b c (paramEntry inner) := by
  refine .here (.look fun t => ?_)
  split
  · refine .look fun second => ?_
    split <;> infer_instance
  · infer_instance

/-- The entries of a list come one after the other. -/
theorem paramEntries_before (hsmall : Small src) :
    Yields (commaListUntil .rparen (paramEntry inner)) c fun entries _ =>
      entries.Pairwise ParamEntry.Before := by
  refine yields_collect (I := fun es c₁ => c₁.Ready src ∧ (∀ e ∈ es, e.span.stop ≤ c₁.lastStop) ∧
    es.Pairwise ParamEntry.Before) ⟨inferInstance, by simp⟩ fun es c₁ ⟨hc₁, hstop, hbefore⟩ => ?_
  have hround : Nests false src c₁.head.start c₁ _ :=
    nests_commaRoundUntil (paramEntry inner) .rparen
  refine hround.settles.yields.mono fun r c₂ hgot => ?_
  have hold : ∀ e ∈ es, e.span.stop ≤ c₂.lastStop := fun e he =>
    Nat.le_trans (hstop e he) hgot.onto.lastStop_le
  have hI₂ : (∀ e ∈ r.items es, e.span.stop ≤ c₂.lastStop) ∧
      (r.items es).Pairwise ParamEntry.Before := by
    cases r with
    | done => exact ⟨hold, hbefore⟩
    | last a | more a =>
        have ha := (hgot.lies.lies hsmall a rfl).span_liesIn
        refine ⟨List.forall_mem_append.mpr ⟨hold, by simpa using ha.le_stop⟩,
          List.pairwise_append.mpr ⟨hbefore, List.pairwise_singleton _ a, fun e he a' ha' => ?_⟩⟩
        rw [List.mem_singleton.mp ha']
        exact Nat.le_trans (hstop e he) (Nat.le_trans hc₁.lastStop_le ha.start_le)
  exact ⟨fun _ => ⟨hgot.onto.ready, hI₂⟩, fun _ => hI₂.2⟩

instance : Nests false src b c (parameters inner) := by
  refine .step fun _ => .step fun entries => .step fun _ => ?_
  have hentries : Lies src b entries.after entries.val := inferInstance
  split
  · rename_i span hgroup
    exact ⟨settles_failAt.mpr (groupParams_error_inside hgroup hentries.inside)⟩
  · rename_i fields hgroup
    have : Lies src b entries.after fields := ⟨fun _ _ => trivial, fun hsmall =>
      groupParams_liesIn hgroup (hentries.lies hsmall) (paramEntries_before hsmall _ _ entries.run)⟩
    infer_instance

instance : Nests false src b c (results inner) := by
  refine .look fun opened => ?_
  split
  · infer_instance
  · refine .here (.step fun t => ?_)
    split
    · infer_instance
    · rename_i ht
      have ht := t.lies.of_some ht
      have := ht.took
      infer_instance

instance : Nests false src b c (signature inner) := by
  unfold signature
  infer_instance

instance : Lands src (parameters inner) where
  yields c hc := by
    simp only [parameters, yields_bind, yields_discard, yields_expect]
    intro _ entries c₁ hrun hclose
    have hlist : Nests false src c.advance.head.start c.advance
      (commaListUntil .rparen (paramEntry inner)) := inferInstance
    have h₁ := (hlist.settles.yields entries c₁ hrun).onto
    have hle := Nat.le_trans h₁.start_le h₁.ready.head_bounds.2.2.1
    have hlanded := h₁.ready.landed_advance hclose rfl
    split
    · exact yields_failAt
    · rw [yields_bind]
      refine yields_forM_makeExpr fun _ _ => yields_mapM_makeField fun _ _ => ⟨?_, ?_⟩
      · exact Nat.le_trans hc.onto_advance.start_le hle
      · exact Cursor.same_withBench.landed (Cursor.same_withBench.landed hlanded)

instance : Lands src (signature inner) where
  yields c hc := by
    simp only [signature, results, yields_bind, yields_isAt, yields_ite, yields_here, yields_pure]
    intro params c₁ hrun
    have hparams : Nests false src c.head.start c (parameters inner) := inferInstance
    have h₁ := (hparams.settles.yields params c₁ hrun).onto
    obtain ⟨hle, hlanded⟩ := Lands.yields c hc params c₁ hrun
    refine ⟨fun _ => (Lands.yields c₁ h₁.ready).mono fun _ _ h =>
      ⟨Nat.le_trans h₁.start_le h.1, h.2⟩, fun _ t c₂ hrun₂ => ?_⟩
    have htype : Nests true src c₁.head.start c₁ (type? inner) := inferInstance
    have h₂ := htype.settles.yields _ _ hrun₂
    have hle₂ := Nat.le_trans hle h₂.onto.lastStop_le
    cases t with
    | none =>
        have hhalts : Halts (type? inner) := type?_halts (inferInstance : inner.Nests src)
        have hsame := hhalts.yields c₁ none c₂ hrun₂ rfl
        exact yields_pure.mpr ⟨hle₂, hsame.landed hlanded⟩
    | some t =>
        simp only [yields_bind, yields_spanFrom, yields_makeField, yields_pure]
        exact ⟨hle₂, Cursor.same_withBench.landed (h₂.framed rfl t rfl).landed⟩

instance : Nests e src b c (funcType inner) := by
  unfold funcType
  infer_instance

instance : Nests false src b c fieldNames := by
  refine .look fun t => ?_
  split <;> infer_instance

instance : Nests false src b c (fieldDecl inner) := by
  unfold fieldDecl
  infer_instance

instance : Nests e src b c (structType inner) := by
  unfold structType
  infer_instance

instance : Nests e src b c (typeTerm inner) := by
  unfold typeTerm
  infer_instance

instance {start : Nat} {left : Expr} [c.From src start] [Lies src start c left] :
    Nests e src start c (unionRound inner start left) := by
  unfold unionRound
  infer_instance

omit [Inner.Nests src inner] in
instance {start : Nat} {left : Expr} : Halts (unionRound inner start left) where
  yields c := by simp [unionRound, yields_true]

instance : Nests false src b c (interfaceUnion inner) := by
  unfold interfaceUnion
  infer_instance

/-- The signature of a method starts after its name. -/
instance : Nests false src b c (interfaceMethod inner) := by
  refine .here (.step fun n => .mark (.bind (d := n.after.head.start) inferInstance fun sig => ?_))
  refine .spanFrom (.bind (d := n.after.head.start) inferInstance fun t => ?_)
  have : Lies src c.head.start t.after t.val :=
    t.lies.mono (fun _ => n.onto.start_le) (Nat.le_refl _)
  infer_instance

instance : Nests false src b c (interfaceMember inner) := by
  refine .look fun t => .look fun second => ?_
  split <;> infer_instance

instance : Nests e src b c (interfaceType inner) := by
  unfold interfaceType
  infer_instance

instance : Nests e src b c (typeHere? inner) := by
  refine .look fun t => ?_
  split <;> infer_instance

omit [Inner.Nests src inner] in
instance : Halts (typeHere? inner) where
  yields c := by
    simp only [typeHere?, yields_bind, yields_peek]
    split <;> simp [yields_true]

end Grammar

end GoGloss
