import GoGloss.Proofs.Origins.Types

/-!
# The expressions on the bench have an origin

An operand grows by what is written after it, and then by the operators around it. Each
step makes a node; its origin is the run up to there.
-/

namespace GoGloss.Grammar

variable {src : String} {P : Expr → Prop} [hP : Admits src P] {n : Nat}
  [hi : Inner.Stocks src P (inner n)]
include hP hi

/-! ## Operands -/

instance : Stocks src P (stmtList (inner n)) := by
  unfold stmtList
  infer_instance

instance : Stocks src P (block (inner n)) := by
  unfold block
  infer_instance

instance : Stocks src P (funcType (inner n)) := by
  refine .of_finishes inferInstance fun {c x c'} hc hrun => ?_
  have hfunc : Yields (funcType (inner n)) c fun _ _ => c.head.token = .keyword .func_ := by
    simp only [funcType, yields_bind, yields_here, yields_expect]
    exact fun hfunc => by simp [hfunc]
  exact hc.admits (.type (typeHere?_eq_some (.inr ⟨hfunc x c' hrun, hrun⟩)))

instance : Finishes src P (funcTypeOrLit (inner n)) := by
  unfold funcTypeOrLit
  infer_instance

instance : Finishes src P (operand (inner n)) := by
  refine .step fun t => ?_
  split
  · infer_instance
  · infer_instance
  · infer_instance
  · infer_instance
  · refine .step fun t => ?_
    split <;> infer_instance

/-! ## What follows an operand -/

instance (x : Expr) (start : Nat) : Finishes src P (selectorOrAssertion (inner n) x start) := by
  refine .step fun _ => .step fun t => ?_
  split
  · infer_instance
  · refine .step fun _ => .step fun guard => ?_
    dsimp only
    infer_instance
  · infer_instance

instance : Stocks src P (sliceBound (inner n)) := by
  refine .step fun t => ?_
  split <;> infer_instance

instance : Stocks src P (sliceBounds (inner n)) := by
  unfold sliceBounds
  infer_instance

instance : Stocks src P (subscript (inner n)) := by
  have hrest : ∀ first : Option Expr, Stocks src P (Body.subscriptFrom
      (moreUntil .rbrack (expr (inner n))) (sliceBounds (inner n)) first) := by
    intro first
    refine .step fun colon => ?_
    split <;> infer_instance
  unfold subscript Body.subscript
  dsimp only
  refine .step fun colon => ?_
  split
  · exact .step hrest
  · exact .step hrest

instance (x : Expr) (start : Nat) : Finishes src P (subscripted (inner n) x start) := by
  refine .step fun _ => .step fun sub => ?_
  refine .step fun rbrack => .step fun span => ?_
  split <;> infer_instance

instance : Stocks src P (argRound (inner n)) := by
  refine .step fun t => ?_
  split
  · infer_instance
  · infer_instance
  · refine .step fun x => .step fun dots => ?_
    split <;> infer_instance

instance (f : Expr) (start : Nat) : Finishes src P (call (inner n) f start) := by
  unfold call
  infer_instance

instance : Stocks src P (elementValue (inner n)) := by
  unfold elementValue
  infer_instance

instance : Stocks src P (element (inner n)) := by
  have hpair : ∀ span key colon value, Stocks src P (makeExpr (.keyValue span key colon value)) :=
    fun _ _ _ _ => stocks_makeExpr (hP.part rfl)
  refine .step fun start => .step fun key => ?_
  refine .step fun colon => ?_
  split <;> infer_instance

instance (t : Option Expr) (start : Nat) : Finishes src P (literalValue (inner n) t start) := by
  unfold literalValue
  infer_instance

instance (start : Nat) : Stocks src P (literalValue (inner n) none start) := by
  have hliteral : ∀ span lbrace elements rbrace,
      Stocks src P (makeExpr (.composite span none lbrace elements rbrace)) :=
    fun _ _ _ _ => stocks_makeExpr (hP.part rfl)
  unfold literalValue
  infer_instance

instance (start : Nat) (x : Expr) : Offers src P (postfixRound (inner n) start x) := by
  refine .step fun t => ?_
  split <;> infer_instance

theorem primary_stocked {c : Cursor} (hc : c.Stocked src P) (hstart : startsPrimary c.head.token) :
    Yields (primary (inner n)) c fun _ c' => c.Onward src P c' := by
  simp only [primary, yields_bind, yields_here]
  intro x c₁ hrun
  obtain ⟨hfinish, hlevel⟩ := Finishes.yields (P := P) c hc x c₁ hrun
  have h₁ := hfinish (hc.admits (.operand hstart hrun .refl))
  refine (yields_extend_grown h₁ inferInstance fun hgrown =>
    hc.admits (.operand hstart hrun hgrown)).mono fun y c₂ h₂ => ?_
  exact ⟨h₂.1, h₂.2.trans hlevel⟩

/-! ## Operators -/

instance : Finishes src P (receiveExpr (inner n)) := by
  unfold receiveExpr
  infer_instance

instance : Finishes src P (starExpr (inner n)) := by
  unfold starExpr
  infer_instance

instance (op : UnaryOp) : Finishes src P (unaryExpr (inner n) op) := by
  unfold unaryExpr
  infer_instance

instance : Stocks src P (unary (inner n)) := by
  refine .of_finishes ⟨fun c hc => ?_⟩ fun {c x c'} hc hrun =>
    hc.admits (@Origin.operator c n 0 x x c' c' hrun .refl)
  simp only [unary, yields_bind, yields_peek]
  split
  · exact Finishes.yields c hc
  · exact Finishes.yields c hc
  · rename_i harrow hstar
    split
    · exact Finishes.yields c hc
    · rename_i hop
      refine (primary_stocked hc ?_).mono fun x c₁ h₁ => ⟨fun _ => h₁.1, h₁.2⟩
      unfold startsPrimary
      split
      · exact absurd ‹_› harrow
      · exact absurd ‹_› hstar
      · simp [hop]

instance (least start : Nat) (left : Expr) :
    Offers src P (binaryRound (inner n) least start left) := by
  refine .step fun t => ?_
  split <;> infer_instance

instance (least : Nat) : Stocks src P (binary (inner n) least) where
  yields c hc := by
    simp only [binary, yields_bind, yields_here]
    intro x c₁ hrun
    have h₁ := Stocks.yields (P := P) c hc x c₁ hrun
    refine (yields_extend_grown h₁.1 inferInstance fun hgrown =>
      hc.admits (.operator hrun hgrown)).mono fun y c₂ h₂ => ?_
    exact ⟨h₂.1, h₂.2.trans h₁.2⟩

end GoGloss.Grammar
