import GoGloss.Proofs.Operations
import GoGloss.Proofs.ReadBack.Expressions

/-!
# Operations are read back

The source of an operation is read as that operation, since its tokens are those of a
legible expression. Each node of an operation may need two levels, so a source that is
refused for its depth has a hundred nodes or more.
-/

namespace GoGloss.Grammar

open GoGloss.Expr

variable {deep : Prop} {t : Expr}

theorem reads_wholeExpr (h : t.Operation) (hdeep : ¬ deep → 1 + 2 * t.size ≤ maxDepth) :
    Reads deep wholeExpr (Cursor.start (tokenize t.source) t.source.utf8ByteSize) fun x _ =>
      x.bare = t.bare := by
  obtain ⟨ls, last, htokenize, hls⟩ := tokenize_spaced h.isSpelled h.endsStatement
  refine reads_wholeExpr_of_legible h.legible h.binds htokenize ?_ ?_
  · rw [hls]
    exact h.tokens_eq
  · intro hnot
    have := hdeep hnot
    have := h.need_lt.2
    omega

end GoGloss.Grammar

namespace GoGloss

open Grammar

/--
**Operations are read back from their source.** What is read is the same tree up to
the places in it, unless the source lies too deep, which is then the only complaint.
A tree of fewer than a hundred nodes never does.
-/
theorem parseExpr_source (t : Expr) (ht : t.Operation) :
    ((∃ f, parseExpr t.source = .ok f ∧ f.root.bare = t.bare) ∨
      ∃ e span, parseExpr t.source = .error e ∧
        e.diagnostics = [⟨.parsing, span, "exceeded max nesting depth"⟩]) ∧
    (t.size < 100 → ∃ f, parseExpr t.source = .ok f ∧ f.root.bare = t.bare) := by
  -- a hundred nodes need at most two hundred levels and one for the whole
  have hread : Reads (100 ≤ t.size) wholeExpr _ _ :=
    reads_wholeExpr ht (by simp [maxDepth]; omega)
  have hresult := hread.read (lexicalDiagnostics_spaced ht.isSpelled ht.endsStatement)
  constructor
  · exact hresult.imp_right fun h => h.2
  · intro hsize
    exact hresult.resolve_right fun h => absurd h.1 (by omega)

/-- Operators in front of operands and between them, and parentheses of both kinds. -/
theorem parseExpr_source_product :
    ∃ t : Expr, t.Operation ∧ t.size < 100 ∧ t.source = "- a . b * ( c + f ( x ) )" ∧
      ∃ f, parseExpr t.source = .ok f ∧ f.root.bare = t.bare := by
  have hleft : (Expr.unary default .minus default
      (.selector default (.ident ⟨"a", default⟩) ⟨"b", default⟩)).Operation :=
    .unary (.selector (.ident (by decide +kernel)) (by decide +kernel) (by decide)) (by decide)
  have hcall : (Expr.call default (.ident ⟨"f", default⟩) [.ident ⟨"x", default⟩] none).Operation :=
    .call (.ident (by decide +kernel)) (by simpa using .ident (by decide +kernel)) (by decide)
  have hright : (Expr.paren default default (.binary default (.ident ⟨"c", default⟩) .add default
      (.call default (.ident ⟨"f", default⟩) [.ident ⟨"x", default⟩] none)) default).Operation :=
    .paren (.binary (.ident (by decide +kernel)) hcall (by decide))
  have hproduct : (Expr.binary default _ .mul default _).Operation :=
    .binary hleft hright (by decide)
  refine ⟨_, hproduct, by simp [Expr.sizeAll], by decide +kernel, ?_⟩
  exact (parseExpr_source _ hproduct).2 (by simp [Expr.sizeAll])

end GoGloss
