import GoGloss.Proofs.AtomsKept.Types

/-!
# Reading expressions keeps the atoms

An expression grows around what was read before it: a round that puts an operator
or a suffix on top of `x` holds the atoms of `x` and those it takes itself.
-/

namespace GoGloss.Grammar

section Productions

variable {inner : Inner} (hi : inner.KeepsAtoms) {c : Cursor}
include hi

/-! ## Blocks and operands -/

theorem stmtList_atoms : KeepsAtoms (stmtList inner) Stmt.atomsAll := by
  have hround : KeepsAtoms (stmtList inner) fun ss => ss.flatMap Stmt.atoms := by
    refine KeepsAtoms.collect fun c => ?_
    simp [Round.atoms]
    intro _
    refine (stmt_atoms hi c).mono fun s c₁ hs => ?_
    refine (expectEnd_atoms c₁).mono fun _ c₂ hend => ?_
    simp_all
  exact hround.mono fun ss => (Stmt.atomsAll_eq ss).symm

theorem block_atoms : KeepsAtoms (block inner) Block.atoms := by
  intro c
  simp [block]
  intro hopen
  refine (stmtList_atoms hi _).mono fun ss c₁ hss hclose => ?_
  simp_all

theorem parenExpr_atoms (hc : isFixed c.head.token) :
    Yields (parenExpr inner) c fun x c' => c.atoms = x.atoms ++ c'.atoms := by
  simp [parenExpr]
  refine (expr_atoms hi _).mono fun x c₁ hx hclose => ?_
  simp_all

theorem funcTypeOrLit_atoms : KeepsAtoms (funcTypeOrLit inner) Expr.atoms := by
  intro c
  simp [funcTypeOrLit]
  refine (funcType_atoms hi c).mono fun t c₁ ht => ⟨fun _ => ?_, fun _ => ht⟩
  refine (block_atoms hi _).mono fun body c₂ hbody => ?_
  simp_all

theorem operand_atoms : KeepsAtoms (operand inner) Expr.atoms := by
  intro c
  simp only [operand, yields_bind, yields_peek]
  split <;> rename_i hc
  · simpa using name_atoms c
  · exact parenExpr_atoms hi (by simp [hc])
  · exact funcTypeOrLit_atoms hi c
  · simpa using Cursor.atoms_eq_cons (c := c) (by rw [Lexeme.atom?, hc])
  · rw [yields_bind]
    refine (type?_atoms hi c).mono fun t c₁ ht => ?_
    cases t <;> simp_all

/-! What follows an operand `x` holds the atoms of `x` and those it takes itself. -/

theorem selectorOrAssertion_atoms (x : Expr) (start : Nat) (hc : isFixed c.head.token) :
    Yields (selectorOrAssertion inner x start) c fun y c' =>
      x.atoms ++ c.atoms = y.atoms ++ c'.atoms := by
  simp only [selectorOrAssertion, yields_bind, yields_discard, yields_take, yields_peek]
  split <;> rename_i hnext
  · rw [yields_bind]
    refine (name_atoms _).mono fun member c₁ hmember => ?_
    simp_all
  · simp
    refine ⟨fun htype hclose => ?_, fun htype => ?_⟩
    · simp_all
    · refine (type_atoms hi _).mono fun t c₁ ht hclose => ?_
      simp_all
  · simp

theorem sliceBound_atoms : KeepsAtoms (sliceBound inner) Expr.atomsOption := by
  intro c
  simp only [sliceBound, yields_bind, yields_peek]
  split
  · simp
  · simp
  · simpa using expr_atoms hi c

theorem sliceBounds_atoms : KeepsAtoms (sliceBounds inner) fun bounds =>
    Expr.atomsOption bounds.1 ++ Expr.atomsOption bounds.2.1 := by
  intro c
  simp [sliceBounds]
  intro hcolon
  refine (sliceBound_atoms hi _).mono fun hi' c₁ hhi => ⟨fun hcolon₂ => ?_, fun _ => ?_⟩
  · refine (sliceBound_atoms hi _).mono fun max c₂ hmax => ?_
    simp_all
  · simp_all

/-- The atoms of what stands between the brackets after an operand. -/
def Subscript.atoms : Subscript Expr → List Atom
  | .indices first others => first.atoms ++ Expr.atomsAll others
  | .slice lo hi max _ => Expr.atomsOption lo ++ Expr.atomsOption hi ++ Expr.atomsOption max

theorem subscript_atoms : KeepsAtoms (subscript inner) Subscript.atoms := by
  intro c
  simp [subscript]
  refine ⟨fun _ => (sliceBounds_atoms hi c).mono fun bounds c₁ hbounds => ?_, fun _ => ?_⟩
  · simpa [Subscript.atoms] using hbounds
  · refine (expr_atoms hi c).mono fun first c₁ hfirst => ?_
    by_cases hcolon : c₁.head.token = .mark .colon
    · simp [hcolon]
      refine (sliceBounds_atoms hi c₁).mono fun bounds c₂ hbounds => ?_
      simp_all [Subscript.atoms]
    · simp [hcolon]
      refine ((expr_atoms hi).moreUntil c₁).mono fun others c₂ hothers => ?_
      simp_all [Subscript.atoms, Expr.atomsAll_eq]

theorem subscripted_atoms (x : Expr) (start : Nat) (hc : isFixed c.head.token) :
    Yields (subscripted inner x start) c fun y c' =>
      x.atoms ++ c.atoms = y.atoms ++ c'.atoms := by
  simp only [subscripted, yields_bind, yields_discard, yields_take, yields_bracketed,
    yields_expect, yields_spanFrom, Cursor.withExprLevel_head]
  refine (subscript_atoms hi _).mono fun sub c₁ hsub hclose => ?_
  have hread : c.atoms = sub.atoms ++ (c₁.withExprLevel (c₁.exprLevel - 1)).advance.atoms := by
    simpa [hc, hclose] using hsub
  rw [hread]
  split <;> simp [Subscript.atoms]

theorem argRound_atoms : KeepsAtoms (argRound inner) (Round.atoms fun arg => arg.1.atoms) := by
  intro c
  simp only [argRound, yields_bind, yields_peek]
  split
  · simp [Round.atoms]
  · simp [Round.atoms]
  · rw [yields_bind]
    refine (expr_atoms hi c).mono fun x c₁ hx => ?_
    simp +contextual [Round.atoms, hx]

theorem call_atoms (f : Expr) (start : Nat) (hc : isFixed c.head.token) :
    Yields (call inner f start) c fun x c' => f.atoms ++ c.atoms = x.atoms ++ c'.atoms := by
  simp [call]
  refine ((argRound_atoms hi).collect _).mono fun args c₁ hargs hclose => ?_
  simp_all [Expr.atomsAll_eq, List.flatMap_map]

theorem elementValue_atoms : KeepsAtoms (elementValue inner) Expr.atoms := by
  intro c
  simp [elementValue]
  refine ⟨fun _ _ => ?_, fun _ => expr_atoms hi c⟩
  simpa using hi.literalValue none c.head.start (c.withDepth (c.depth + 1))

theorem element_atoms : KeepsAtoms (element inner) Expr.atoms := by
  intro c
  simp [element]
  refine (elementValue_atoms hi c).mono fun key c₁ hkey => ⟨fun hcolon => ?_, fun _ => hkey⟩
  refine (elementValue_atoms hi _).mono fun value c₂ hvalue => ?_
  simp_all

theorem literalValue_atoms (t : Option Expr) (start : Nat) (c : Cursor) :
    Yields (literalValue inner t start) c fun x c' =>
      Expr.atomsOption t ++ c.atoms = x.atoms ++ c'.atoms := by
  simp [literalValue]
  intro hopen
  refine ((element_atoms hi).commaListUntil _).mono fun elements c₁ helements hclose => ?_
  simp_all [Expr.atomsAll_eq]

theorem postfixRound_atoms (start : Nat) (x : Expr) (c : Cursor) :
    Yields (postfixRound inner start x) c fun y c' =>
      x.atoms ++ c.atoms = (y.getD x).atoms ++ c'.atoms := by
  simp only [postfixRound, yields_bind, yields_peek]
  split <;> rename_i hc
  · simp
    intro _
    simpa using selectorOrAssertion_atoms hi (c := c.withDepth (c.depth + 1)) x start (by simp [hc])
  · simp
    intro _
    simpa using subscripted_atoms hi (c := c.withDepth (c.depth + 1)) x start (by simp [hc])
  · simp
    intro _
    simpa using call_atoms hi (c := c.withDepth (c.depth + 1)) x start (by simp [hc])
  · simp
    intro _ _
    simpa using literalValue_atoms hi (some x) start (c.withDepth (c.depth + 1))
  · simp

theorem primary_atoms : KeepsAtoms (primary inner) Expr.atoms := by
  intro c
  simp [primary]
  refine (operand_atoms hi c).mono fun x c₁ hx => ?_
  exact yields_extend hx fun x c₂ hx => (postfixRound_atoms hi _ x c₂).mono
    fun y c₃ hy => hx.trans hy

theorem receiveExpr_atoms (hc : isFixed c.head.token) :
    Yields (receiveExpr inner) c fun x c' => c.atoms = x.atoms ++ c'.atoms := by
  simp [receiveExpr]
  refine ⟨fun hchan => ?_, fun _ => ?_⟩
  · simpa [hc, hchan] using type_atoms hi c.advance.advance
  · simpa [hc] using operandUnder_atoms hi c.advance

theorem starExpr_atoms (hc : isFixed c.head.token) :
    Yields (starExpr inner) c fun x c' => c.atoms = x.atoms ++ c'.atoms := by
  simp [starExpr]
  simpa [hc] using operandUnder_atoms hi c.advance

theorem unaryExpr_atoms (op : UnaryOp) (hc : isFixed c.head.token) :
    Yields (unaryExpr inner op) c fun x c' => c.atoms = x.atoms ++ c'.atoms := by
  simp [unaryExpr]
  simpa [hc] using operandUnder_atoms hi c.advance

theorem unary_atoms : KeepsAtoms (unary inner) Expr.atoms := by
  intro c
  simp only [unary, yields_bind, yields_peek]
  split <;> rename_i hc
  · exact receiveExpr_atoms hi (by simp [hc])
  · exact starExpr_atoms hi (by simp [hc])
  · split <;> rename_i hop
    · exact unaryExpr_atoms hi _ (UnaryOp.isFixed_of_ofToken? hop)
    · exact primary_atoms hi c

theorem binaryRound_atoms (least start : Nat) (left : Expr) (c : Cursor) :
    Yields (binaryRound inner least start left) c fun x c' =>
      left.atoms ++ c.atoms = (x.getD left).atoms ++ c'.atoms := by
  simp only [binaryRound, yields_bind, yields_peek]
  split <;> rename_i hop
  · simp
  · simp
    refine fun _ _ => (hi.binary _ _).mono fun right c₁ hright => ?_
    simp_all [BinaryOp.isFixed_of_ofToken? hop]

theorem binary_atoms (least : Nat) : KeepsAtoms (binary inner least) Expr.atoms := by
  intro c
  simp [binary]
  refine (unary_atoms hi c).mono fun x c₁ hx => ?_
  exact yields_extend hx fun x c₂ hx => (binaryRound_atoms hi _ _ x c₂).mono
    fun y c₃ hy => hx.trans hy

end Productions

end GoGloss.Grammar
