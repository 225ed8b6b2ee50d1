import GoGloss.Proofs.Origins.Basic
import GoGloss.Proofs.Reads

/-!
# The types on the bench have an origin

Most productions for types make one node, which is what they return (`Finishes`). That
it is in order is known to the caller, which saw the token it starts with. A name makes
nodes on the way: what it is made of could have been read as an operand.
-/

namespace GoGloss.Grammar

variable {src : String} {P : Expr → Prop}

/-- Every expression with an origin may be put on the bench. -/
class Admits (src : String) (P : Expr → Prop) : Prop where
  sourced : ∀ {x}, Sourced src x → P x

/-- The productions one level further in put only expressions in `P` on the bench. -/
class Inner.Stocks (src : String) (P : Expr → Prop) (inner : Inner) : Prop where
  binary : ∀ least, Grammar.Stocks src P (inner.binary least)
  unary : Grammar.Stocks src P inner.unary
  type? : Grammar.Stocks src P inner.type?
  literalValue : ∀ start, Grammar.Stocks src P (inner.literalValue Option.none start)
  stmt : Grammar.Stocks src P inner.stmt
  ifStmt : Grammar.Stocks src P inner.ifStmt

attribute [instance] Inner.Stocks.binary Inner.Stocks.unary Inner.Stocks.type?
  Inner.Stocks.literalValue Inner.Stocks.stmt Inner.Stocks.ifStmt

section Admitted

variable [hP : Admits src P] {c : Cursor}
include hP

/-- What does not stand alone needs no origin. -/
theorem Admits.part {x : Expr} (h : x.standsAlone = false) : P x :=
  hP.sourced fun halone => absurd halone (by simp [h])

theorem Cursor.Stocked.admits (hc : c.Stocked src P) {x : Expr} {c' : Cursor}
    (h : Origin c x c') : P x :=
  hP.sourced fun _ => ⟨c, c', hc.ready, hc.level, h⟩

/-- A name is an operand by itself. -/
theorem Cursor.Stocked.admits_ident (hc : c.Stocked src P) {text : String}
    (h : c.head.token = .name text) : P (.ident ⟨text, c.head.span⟩) := by
  have hrun : Reads False (operand (inner 0)) c fun x _ => x = .ident ⟨text, c.head.span⟩ := by
    simp only [operand, reads_bind, reads_peek, h]
    exact reads_name h (reads_makeExpr.mpr rfl)
  obtain ⟨_, c', hrun, rfl⟩ := reads_false_iff.mp hrun
  exact hc.admits (.operand (by simp [h, startsPrimary, UnaryOp.ofToken?]) hrun .refl)

/-- So is a name of another package. -/
theorem Cursor.Stocked.admits_selector (hc : c.Stocked src P) {text member : String} {c₁ : Cursor}
    (h : c.head.token = .name text) (hdot : c.advance.head.token = .mark .dot)
    (hmember : c.advance.advance.head.token = .name member)
    (hstop : c₁.lastStop = c.advance.advance.head.stop) :
    P (.selector (c₁.spanFrom c.head.start) (.ident ⟨text, c.head.span⟩)
      ⟨member, c.advance.advance.head.span⟩) := by
  -- the depth does not matter, so the operand is read with all levels to go
  have hrun : Reads False (operand (inner 0)) (c.withDepth 0) fun x c₂ =>
      Reads False (postfixRound (inner 0) c.head.start x) c₂ fun y _ =>
        y = some (.selector (c₁.spanFrom c.head.start) (.ident ⟨text, c.head.span⟩)
          ⟨member, c.advance.advance.head.span⟩) := by
    simp only [operand, reads_bind, reads_peek, Cursor.withDepth_head, h]
    refine reads_name h (reads_makeExpr.mpr ?_)
    simp only [postfixRound, reads_bind, reads_peek, Cursor.withBench_head,
      Cursor.withDepth_advance, Cursor.withDepth_head, hdot, reads_false_enter, reads_map,
      selectorOrAssertion, reads_discard, reads_take, Cursor.withBench_advance, hmember]
    refine ⟨(by decide : 0 < maxDepth), ?_⟩
    refine reads_name hmember (reads_spanFrom.mpr (reads_makeExpr.mpr ?_))
    rw [Cursor.spanFrom, Cursor.spanFrom, hstop]
    rfl
  obtain ⟨_, c₂, hoperand, hround⟩ := reads_false_iff.mp hrun
  obtain ⟨_, c₃, hround, rfl⟩ := reads_false_iff.mp hround
  have horigin : Origin (c.withDepth 0) _ c₃ := .operand
    (by simp [h, startsPrimary, UnaryOp.ofToken?]) hoperand (.step .refl hround)
  exact (Cursor.stocked_withDepth.mpr hc).admits horigin

end Admitted

/-! ## Productions -/

section Productions

variable [hP : Admits src P] {n : Nat} [hi : Inner.Stocks src P (inner n)]
include hP hi

instance : Stocks src P (expr (inner n)) := by
  unfold expr
  infer_instance

instance : Stocks src P (exprList (inner n)) := by
  unfold exprList
  infer_instance

instance : Stocks src P (operandUnder (inner n)) := by
  unfold operandUnder
  infer_instance

instance : Stocks src P (type? (inner n)) := by
  unfold type?
  infer_instance

instance : Stocks src P (type (inner n)) := by
  refine .step fun t => ?_
  split <;> infer_instance

instance : Stocks src P (stmt (inner n)) := by
  unfold stmt
  infer_instance

/-! ## Signatures -/

instance : Stocks src P (paramType (inner n)) := by
  have hdots : ∀ span pos t, Stocks src P (makeExpr (.ellipsis span pos t)) :=
    fun _ _ _ => stocks_makeExpr (hP.part rfl)
  refine .step fun pos => ?_
  split <;> infer_instance

instance (start : Nat) (t : Expr) : Finishes src P (instantiated (inner n) start t) := by
  refine .step fun bracket => ?_
  split
  · refine .step fun first => .step fun others => ?_
    refine .step fun _ => .step fun span => ?_
    split <;> infer_instance
  · infer_instance

instance : Finishes src P (typeName (inner n)) where
  yields c hc := by
    simp only [typeName, yields_bind, yields_here]
    rw [yields_name]
    intro text htext
    rw [yields_makeExpr, yields_eats]
    have h₁ : (c.advance.withBench (c.bench.addName text)).Stocked src P :=
      hc.advance.withBench fun _ hx => .inl hx
    have h₂ := h₁.addExpr (hc.admits_ident htext)
    refine ⟨fun hdot => ?_, fun _ => ?_⟩
    · simp only [if_true, yields_bind]
      rw [yields_name]
      intro member hmember
      rw [yields_spanFrom, yields_makeExpr]
      refine Finishes.yields (p := instantiated (inner n) c.head.start _) _
        (Cursor.Stocked.addExpr ?_ (hc.admits_selector htext hdot hmember rfl))
      exact h₂.advance.advance.withBench fun _ hx => .inl hx
    · exact Finishes.yields (p := instantiated (inner n) c.head.start _) _ h₂

omit hP hi in
/-- Where a name or `func` is ahead, a type is what starts so. -/
theorem typeHere?_eq_some {inner : Inner} {c c' : Cursor} {x : Expr}
    (h : (∃ text, c.head.token = .name text) ∧ typeName inner c = .ok x c' ∨
      c.head.token = .keyword .func_ ∧ funcType inner c = .ok x c') :
    typeHere? inner c = .ok (some x) c' := by
  have hsome : Reads False (typeHere? inner) c fun t c₁ => t = some x ∧ c₁ = c' := by
    simp only [typeHere?, reads_bind, reads_peek]
    rcases h with ⟨⟨text, h⟩, hrun⟩ | ⟨h, hrun⟩ <;> simp [h, reads_false_iff, hrun]
  obtain ⟨_, _, hhere, rfl, rfl⟩ := reads_false_iff.mp hsome
  exact hhere

/-- What an entry of a parameter list leaves for later is a name. -/
def ParamEntry.Named (P : Expr → Prop) (e : ParamEntry) : Prop :=
  ∀ name, e = .bare name → P (.ident name)

theorem paramEntry_stocked {c : Cursor} (hc : c.Stocked src P) :
    Yields (paramEntry (inner n)) c fun e c' => c.Onward src P c' ∧ e.Named P := by
  have hbare : Yields name c fun m c' => c.Onward src P c' ∧ (ParamEntry.bare m).Named P := by
    rw [yields_name]
    intro text htext
    refine ⟨⟨hc.advance.withBench fun _ hx => .inl hx, rfl⟩, ?_⟩
    rintro _ ⟨rfl⟩
    exact hc.admits_ident htext
  simp only [paramEntry, yields_bind, yields_here, yields_peek]
  split
  · rename_i text htext
    simp only [yields_bind, yields_peekSecond]
    split
    · simpa using hbare
    · simpa using hbare
    · -- the name of a type in another package
      rw [yields_bind]
      intro x c' hrun
      obtain ⟨hfinish, hlevel⟩ := Finishes.yields (P := P) c hc x c' hrun
      have hx := hc.admits (.type (typeHere?_eq_some (.inl ⟨⟨text, htext⟩, hrun⟩)))
      simpa [ParamEntry.Named] using ⟨hfinish hx, hlevel⟩
    · rw [yields_bind]
      refine (Stocks.yields c hc).mono fun m c₁ h₁ => ?_
      rw [yields_bind]
      refine (Stocks.yields c₁ h₁.1).mono fun t c₂ h₂ => ?_
      simpa [ParamEntry.Named] using ⟨h₂.1, h₂.2.trans h₁.2⟩
  · rw [yields_bind]
    refine (Stocks.yields c hc).mono fun t c₁ h₁ => ?_
    simpa [ParamEntry.Named] using h₁

omit hP hi in
/-- Only names are turned into types when the list is known. -/
theorem bareTypes_of_named {entries : List ParamEntry} (h : ∀ e ∈ entries, e.Named P) :
    ∀ x ∈ bareTypes entries, P x := by
  unfold bareTypes
  split
  · simp
  · intro x hx
    obtain ⟨e, he, rfl⟩ := List.mem_map.mp hx
    obtain ⟨hmem, hbare⟩ := List.mem_filter.mp he
    cases e with
    | bare name => exact h _ hmem name rfl
    | typed => simp [ParamEntry.isBare] at hbare

instance : Stocks src P (parameters (inner n)) where
  yields c hc := by
    rw [parameters, yields_bind]
    refine (Stocks.yields c hc).mono fun _ c₁ h₁ => ?_
    rw [yields_bind]
    refine (yields_commaListUntil (I := c.Onward src P) (Q := ParamEntry.Named P)
      (fun c₂ h₂ => ⟨h₂.1.advance, h₂.2⟩) (fun c₂ h₂ => ?_) h₁).mono fun entries c₂ h₂ => ?_
    · refine (paramEntry_stocked (n := n) h₂.1).mono fun e c₃ h₃ => ?_
      exact ⟨⟨h₃.1.1, h₃.1.2.trans h₂.2⟩, h₃.2⟩
    · obtain ⟨h₂, hnamed⟩ := h₂
      rw [yields_bind]
      refine (Stocks.yields c₂ h₂.1).mono fun _ c₃ h₃ => ?_
      split
      · exact yields_failAt
      · rw [yields_bind]
        refine yields_forM_makeExpr fun w hw => ?_
        refine yields_mapM_makeField fun w' hw' => ?_
        have hbench : ∀ x ∈ w'.exprs, P x := by
          intro x hx
          rw [hw'] at hx
          have hmem : x ∈ w.exprs.toList := Array.mem_toList_iff.mpr hx
          rw [hw] at hmem
          rcases List.mem_append.mp hmem with hmem | hmem
          · exact h₃.1.exprs x (by simpa using hmem)
          · exact bareTypes_of_named hnamed x hmem
        have hready : ((c₃.withBench w).withBench w').Ready src :=
          Cursor.same_withBench.ready (Cursor.same_withBench.ready h₃.1.ready)
        exact ⟨⟨hready, h₃.1.level, hbench⟩, h₃.2.trans h₂.2⟩

instance : Stocks src P (results (inner n)) := by
  refine .step fun paren => ?_
  split
  · infer_instance
  · refine .step fun start => .step fun t => ?_
    split <;> infer_instance

instance : Stocks src P (signature (inner n)) := by
  unfold signature
  infer_instance

instance : Finishes src P (funcType (inner n)) := by
  unfold funcType
  infer_instance

/-! ## Composite types -/

instance : Stocks src P (arrayLength (inner n)) := by
  have hdots : ∀ span pos t, Stocks src P (makeExpr (.ellipsis span pos t)) :=
    fun _ _ _ => stocks_makeExpr (hP.part rfl)
  refine .step fun t => ?_
  split <;> infer_instance

instance : Finishes src P (arrayType (inner n)) := by
  unfold arrayType
  infer_instance

omit hP hi in
instance : Stocks src P fieldNames := by
  refine .step fun t => ?_
  split
  · infer_instance
  · exact .step fun t => by unfold nameList; infer_instance
  · infer_instance

instance : Stocks src P (fieldDecl (inner n)) := by
  unfold fieldDecl
  infer_instance

instance : Finishes src P (structType (inner n)) := by
  unfold structType
  infer_instance

/-! ## Interfaces -/

instance : Stocks src P (typeTerm (inner n)) := by
  have hfinishes : Finishes src P (typeTerm (inner n)) := by
    refine .step fun start => .step fun tilde => ?_
    split <;> infer_instance
  exact .of_finishes hfinishes fun hc hrun => hc.admits (.union hrun .refl)

instance (start : Nat) (left : Expr) : Offers src P (unionRound (inner n) start left) := by
  unfold unionRound
  infer_instance

instance : Stocks src P (interfaceUnion (inner n)) where
  yields c hc := by
    simp only [interfaceUnion, yields_bind, yields_here]
    intro t c₁ hrun
    have h₁ := Stocks.yields (P := P) c hc t c₁ hrun
    refine (yields_extend_grown h₁.1 inferInstance fun hgrown =>
      hc.admits (.union hrun hgrown)).mono fun u c₂ h₂ => ?_
    rw [yields_spanFrom]
    exact (Stocks.yields c₂ h₂.1).mono fun _ c₃ h₃ =>
      ⟨h₃.1, h₃.2.trans (h₂.2.trans h₁.2)⟩

instance : Stocks src P (interfaceMethod (inner n)) := by
  have hsignature : ∀ span params results,
      Stocks src P (makeExpr (.funcType span none params results)) :=
    fun _ _ _ => stocks_makeExpr (hP.part rfl)
  unfold interfaceMethod
  infer_instance

instance : Stocks src P (interfaceMember (inner n)) := by
  refine .step fun t => .step fun t' => ?_
  split <;> infer_instance

instance : Finishes src P (interfaceType (inner n)) := by
  unfold interfaceType
  infer_instance

/-! ## All types -/

instance : Finishes src P (mapType (inner n)) := by
  unfold mapType
  infer_instance

instance : Finishes src P (parenType (inner n)) := by
  unfold parenType
  infer_instance

instance : Stocks src P (typeHere? (inner n)) := by
  have hoffers : Offers src P (typeHere? (inner n)) := by
    refine .step fun t => ?_
    split <;> infer_instance
  exact .of_offers hoffers fun hc hrun => hc.admits (.type hrun)

end Productions

end GoGloss.Grammar
