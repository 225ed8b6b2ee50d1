import GoGloss.Proofs.Made

/-!
# Reading keeps the rules of precedence

An expression fits by the production that made it, and no other tree of the same operands
and operators does.
-/

namespace GoGloss

namespace Grammar

instance {src : String} : Admits src Expr.Fits where
  sourced {x} h := by
    by_cases halone : x.standsAlone
    · obtain ⟨c, c', _, _, horigin⟩ := h halone
      exact horigin.expr_fits.1
    · unfold Expr.standsAlone at halone
      split at halone <;> simp_all [Expr.Fits]

end Grammar

open Grammar

/-- In a fragment, whose root is a `node`, every operator takes what it takes in Go. -/
structure Fragment.Grouped {α : Type} (node : α → Node) (f : Fragment α) : Prop where
  /-- Of all nodes that were made, none has an operator that takes what it must not. -/
  bench : ∀ x ∈ f.bench.exprs, x.Fits
  /-- Nor has any node of the tree. -/
  tree : (node f.root).Binds
  /-- The tree of an expression is the only one of its operands and operators in that order. -/
  unique : ∀ x, .expr x ∈ (node f.root).nodes → ∀ y : Expr, (Node.expr y).Binds →
    y.parts = x.parts → y.bare = x.bare

namespace Fragment.Grouped

/-- A tree is grouped if all that lies on the bench fits. -/
theorem of_bench {α : Type} {node : α → Node} {f : Fragment α}
    (hbench : ∀ x ∈ f.bench.exprs, x.Fits)
    (hheld : ∀ m ∈ (node f.root).nodes, f.bench.Holds m) : f.Grouped node := by
  have htree : (node f.root).Binds := fun x hx => hbench x (hheld _ hx)
  refine ⟨hbench, htree, fun x hx y hy hparts => ?_⟩
  exact Expr.bare_eq_of_parts_eq hy (htree.of_mem hx) hparts

variable {src : String}

theorem expr {f : Fragment Expr} (hf : parseExpr src = .ok f) : f.Grouped .expr := by
  obtain ⟨c, hbench, hc⟩ :=
    (Stocks.yields (p := wholeExpr) (P := Expr.Fits) _ stocked_start).read_bench hf
  exact of_bench (hbench ▸ hc.1.exprs) (Flat.held_of_read (k := .expr) Flat.twin_wholeExpr hf)

theorem stmt {f : Fragment Stmt} (hf : parseStmt src = .ok f) : f.Grouped .stmt := by
  obtain ⟨c, hbench, hc⟩ :=
    (Stocks.yields (p := wholeStmt) (P := Expr.Fits) _ stocked_start).read_bench hf
  exact of_bench (hbench ▸ hc.1.exprs) (Flat.held_of_read (k := .stmt) Flat.twin_wholeStmt hf)

theorem decl {f : Fragment Decl} (hf : parseDecl src = .ok f) : f.Grouped .decl := by
  obtain ⟨c, hbench, hc⟩ := (wholeDecl_stocked (P := Expr.Fits) stocked_start).read_bench hf
  refine of_bench (fun x hx => ?_) (Flat.held_of_read (k := .decl) Flat.twin_wholeDecl hf)
  rcases hc.exprs x (hbench ▸ hx) with hfits | hsig
  · exact hfits
  · -- the type in the declaration of a function has no operator
    unfold Decl.IsSignature at hsig
    split at hsig
    · obtain ⟨rfl, _, _, _, rfl⟩ := hsig
      trivial
    · exact hsig.elim

end Fragment.Grouped

/--
**Operators bind as in Go.** In an accepted source an operator between operands
takes on its left what binds at least as tightly and on its right what binds more
tightly, an operator in front of an operand takes none between operands, and what
follows an operand takes no operator. No other tree of the same operands and
operators does.
-/
theorem parsed_grouped (src : String) :
    (∀ f, parseExpr src = .ok f → f.Grouped .expr) ∧
    (∀ f, parseDecl src = .ok f → f.Grouped .decl) ∧
    (∀ f, parseStmt src = .ok f → f.Grouped .stmt) :=
  ⟨fun _ => .expr, fun _ => .decl, fun _ => .stmt⟩

/-- Operators of one precedence in a row, and one that binds more tightly among them. -/
theorem parsed_grouped_difference :
    ∃ f, parseExpr "a - b - -c.d * e" = .ok f ∧ f.Grouped .expr := by
  generalize hsrc : "a - b - -c.d * e" = src
  have hok : (parseExpr src).toOption.isSome := by
    subst hsrc
    decide +kernel
  cases hf : parseExpr src with
  | error e => simp [hf, Except.toOption] at hok
  | ok f => exact ⟨f, rfl, (parsed_grouped src).1 f hf⟩

end GoGloss
