import GoGloss.Proofs.Placement

/-!
# The spans of what is read nest

What every production reads lies where it was read, with spans that nest. So the tree of an
accepted source has spans that nest, provided the offsets into the source can be recorded.
-/

namespace GoGloss

namespace Grammar

variable {src : String}

/-- At its start a source is ready to be read, and all its offsets can be recorded. -/
theorem ready_start (hsmall : src.utf8ByteSize ≤ Span.maxOffset) :
    (Cursor.start (tokenize src) src.utf8ByteSize).Ready src ∧ Small src :=
  ⟨inferInstance, hsmall⟩

section Whole

variable {c : Cursor} (hc : c.Ready src ∧ Small src)
include hc

theorem wholeExpr_nests : Yields wholeExpr c fun x _ => (Node.expr x).SpansNest src := by
  obtain ⟨_, hsmall⟩ := hc
  have hnests : Nests false src 0 c wholeExpr := inferInstance
  exact hnests.settles.yields.mono fun _ _ hx => (hx.lies.lies hsmall).nest

theorem wholeDecl_nests : Yields wholeDecl c fun d _ => (Node.decl d).SpansNest src := by
  obtain ⟨_, hsmall⟩ := hc
  have hnests : Nests false src 0 c wholeDecl := inferInstance
  exact hnests.settles.yields.mono fun _ _ hd => (hd.lies.lies hsmall).nest

theorem wholeStmt_nests : Yields wholeStmt c fun x _ => (Node.stmt x).SpansNest src := by
  obtain ⟨_, hsmall⟩ := hc
  have hnests : Nests false src 0 c wholeStmt := inferInstance
  exact hnests.settles.yields.mono fun _ _ hx => (hx.lies.lies hsmall).nest

end Whole

end Grammar

open Grammar

/--
**Spans nest.** In the tree of an accepted source shorter than 4 GiB every span is
a stretch of the source, and every node covers the places it keeps and the nodes
directly under it, the empty statement excepted.
-/
theorem spans_nest (src : String) (hsmall : src.utf8ByteSize ≤ Span.maxOffset) :
    (∀ f, parseExpr src = .ok f → (Node.expr f.root).SpansNest src) ∧
    (∀ f, parseDecl src = .ok f → (Node.decl f.root).SpansNest src) ∧
    (∀ f, parseStmt src = .ok f → (Node.stmt f.root).SpansNest src) := by
  have hready := ready_start hsmall
  refine ⟨fun f hf => ?_, fun f hf => ?_, fun f hf => ?_⟩
  · exact ((wholeExpr_nests hready).read hf).elim fun _ h => h
  · exact ((wholeDecl_nests hready).read hf).elim fun _ h => h
  · exact ((wholeStmt_nests hready).read hf).elim fun _ h => h

/-- A method with grouped parameters, a label in front of nothing, and characters of two bytes. -/
theorem spans_nest_method :
    "func (r T) f(ä, b int, c ...ö) \x7b L: \x7d".utf8ByteSize ≤ Span.maxOffset ∧
      ∃ f, parseDecl "func (r T) f(ä, b int, c ...ö) \x7b L: \x7d" = .ok f ∧
        (Node.decl f.root).SpansNest "func (r T) f(ä, b int, c ...ö) \x7b L: \x7d" := by
  generalize hsrc : "func (r T) f(ä, b int, c ...ö) \x7b L: \x7d" = src
  have hsmall : src.utf8ByteSize ≤ Span.maxOffset := by
    subst hsrc
    decide
  have hok : (parseDecl src).toOption.isSome := by
    subst hsrc
    decide +kernel
  refine ⟨hsmall, ?_⟩
  cases hf : parseDecl src with
  | error e => simp [hf, Except.toOption] at hok
  | ok f => exact ⟨f, rfl, (spans_nest src hsmall).2.1 f hf⟩

end GoGloss
