import GoGloss.Proofs.Fitting
import GoGloss.Proofs.Worded

/-!
# Reading makes well-formed trees

What is read fits its level, and part of that is to be well-formed and to stand by
itself. So the tree of an accepted source is well-formed, and its sentence has no placeholder.
-/

namespace GoGloss

open Grammar

/--
**Trees are well-formed.** In the tree of an accepted source no node is `bad`, every
node has the parts that belong to it, and every node that is meant for one place only
stands there. So the sentence is written without the placeholder.
-/
theorem parsed_wellFormed (src : String) :
    (∀ f, parseExpr src = .ok f → (Node.expr f.root).Stands ∧
      ∃ k, f.root.writeWorded k "" = some f.root.english) ∧
    (∀ f, parseDecl src = .ok f → (Node.decl f.root).Stands ∧
      ∃ k, f.root.say (Expr.writeWorded k) "" = some f.root.english) ∧
    (∀ f, parseStmt src = .ok f → (Node.stmt f.root).Stands ∧
      ∃ k, f.root.say (Expr.writeWorded k) "" = some f.root.english) := by
  refine ⟨fun f hf => ?_, fun f hf => ?_, fun f hf => ?_⟩
  · have h := (fits_of_read (Production.wholeExpr.reader (inner maxDepth)) hf).stands
    exact ⟨h, Expr.exists_writeWorded h⟩
  · have h := (fits_of_read (Production.wholeDecl.reader (inner maxDepth)) hf).stands
    exact ⟨h, Decl.exists_writeWorded h.2⟩
  · have h := (fits_of_read (Production.wholeStmt.reader (inner maxDepth)) hf).stands
    exact ⟨h, Stmt.exists_writeWorded h.2⟩

/-- A type switch that defers a call with a literal among its arguments. -/
theorem parsed_wellFormed_switch :
    ∃ f, parseStmt "switch v := x.(type) { case T: defer (f)(m{k: {}}, s[1:2:3]...) }" = .ok f ∧
      (Node.stmt f.root).Stands ∧
      ∃ k, f.root.say (Expr.writeWorded k) "" = some f.root.english := by
  generalize hsrc : "switch v := x.(type) { case T: defer (f)(m{k: {}}, s[1:2:3]...) }" = src
  have hok : (parseStmt src).toOption.isSome := by
    subst hsrc
    decide +kernel
  cases hf : parseStmt src with
  | error e => simp [hf, Except.toOption] at hok
  | ok f => exact ⟨f, rfl, (parsed_wellFormed src).2.2 f hf⟩

end GoGloss
