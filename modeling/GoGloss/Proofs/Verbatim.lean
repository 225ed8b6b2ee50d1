import GoGloss.Proofs.Arena.Reading
import GoGloss.Proofs.AtomsKept
import GoGloss.Proofs.PrecedenceKept
import GoGloss.Proofs.ReadBack.Expressions
import GoGloss.Proofs.Respelling
import GoGloss.Proofs.Verbatim.Levels
import GoGloss.Proofs.Verbatim.Text

/-!
# Verbatim expressions are read back

What a verbatim expression says is source again, and it is read as the same expression.
Its text is cut into the tokens of its spelling, since its names and literals are lexemes
of the source that it was read from; and there are as many levels left for these tokens
as there were when it was read first.
-/

namespace GoGloss.Flat

/-! ## Names and literals of a tree are lexemes -/

theorem Maybe.exists_node {o : Option ExprId} {t : Option Expr} {ps : List Part} {y : Expr}
    (h : Maybe One o t ps) (hy : y ∈ t) : ∃ j : ExprId, Part.node j y ∈ ps := by
  cases h with
  | none => cases hy
  | @some i x ps h =>
      obtain rfl := Option.mem_some_iff.mp hy
      obtain rfl := h
      exact ⟨i, List.mem_cons_self⟩

theorem Listed.exists_node {r : ListRef .exprs} {xs : List Expr} {ps : List Part} {y : Expr}
    (h : Listed One r xs ps) (hy : y ∈ xs) : ∃ j : ExprId, Part.node j y ∈ ps := by
  obtain ⟨items, qs, heach, rfl⟩ := h
  have hitem : ∃ j : ExprId, Part.node j y ∈ qs := by
    induction heach with
    | nil => cases hy
    | @cons i x _ _ ps qs h _ ih =>
        obtain rfl := h
        rcases List.mem_cons.mp hy with rfl | hy
        · exact ⟨i, by simp⟩
        · obtain ⟨j, hj⟩ := ih hy
          exact ⟨j, List.mem_append_right _ hj⟩
  obtain ⟨j, hj⟩ := hitem
  exact ⟨j, List.mem_cons_of_mem _ hj⟩

/-- The operands of an expression are among the parts of its node. -/
theorem ExprOf.exists_node {n : ExprNode} {x : Expr} {ps : List Part} (h : ExprOf n x ps) :
    Node.All (fun _ m => ∀ y, m = .expr y → ∃ j : ExprId, Part.node j y ∈ ps)
      (Node.exprChildren x) := by
  cases h with
  | composite ht hxs =>
      simp only [Node.exprChildren, Node.all_append, Node.all_expr?, Node.all_exprs]
      constructor
      · rintro y hy _ ⟨⟩
        exact (ht.exists_node hy).imp fun j hj => List.mem_append_left _ hj
      · rintro y hy _ ⟨⟩
        exact (hxs.exists_node hy).imp fun j hj => List.mem_append_right _ hj
  | indexList hxs | call hxs =>
      simp only [Node.exprChildren, Node.all_cons, Node.all_exprs]
      constructor
      · rintro _ ⟨⟩
        exact ⟨_, List.mem_cons_self⟩
      · rintro y hy _ ⟨⟩
        exact (hxs.exists_node hy).imp fun j hj => List.mem_append_right _ hj
  | slice hlo hhi hmax =>
      simp only [Node.exprChildren, Node.all_cons, Node.all_append, Node.all_expr?]
      refine ⟨?_, ⟨?_, ?_⟩, ?_⟩
      · rintro _ ⟨⟩
        exact ⟨_, List.mem_cons_self⟩
      · rintro y hy _ ⟨⟩
        exact (hlo.exists_node hy).imp fun j hj => by simp [hj]
      · rintro y hy _ ⟨⟩
        exact (hhi.exists_node hy).imp fun j hj => by simp [hj]
      · rintro y hy _ ⟨⟩
        exact (hmax.exists_node hy).imp fun j hj => by simp [hj]
  | typeAssert ht =>
      simp only [Node.exprChildren, Node.all_cons, Node.all_expr?]
      constructor
      · rintro _ ⟨⟩
        exact ⟨_, List.mem_cons_self⟩
      · rintro y hy _ ⟨⟩
        exact (ht.exists_node hy).imp fun j hj => List.mem_append_right _ hj
  | arrayType ht =>
      simp only [Node.exprChildren, Node.all_append, Node.all_cons, Node.all_nil, Node.all_expr?]
      refine ⟨?_, ?_, trivial⟩
      · rintro y hy _ ⟨⟩
        exact (ht.exists_node hy).imp fun j hj => List.mem_append_left _ hj
      · rintro _ ⟨⟩
        exact ⟨_, List.mem_append_right _ List.mem_cons_self⟩
  | ellipsis ht =>
      simp only [Node.exprChildren, Node.all_expr?]
      rintro y hy _ ⟨⟩
      exact ht.exists_node hy
  | _ => simp [Node.exprChildren]

end GoGloss.Flat

namespace GoGloss

open Flat Grammar

section Found

/-- A verbatim expression that was read, with its place on the workbench. -/
structure Found (log : List Event) (w : Workbench) (x : Expr) : Prop where
  verbatim : x.Verbatim
  binds : (Node.expr x).Binds
  stands : ∃ i : ExprId, StandsFor log w i x

variable {ls : List Lexeme} {log : List Event} {w : Workbench} {x : Expr}

/-- What a node holds is there, and what it takes up is on the workbench. -/
theorem Found.of_parts (h : Found log w x) (hm : Mirror ls log w) :
    ∃ n ps, ExprOf n x ps ∧ ∀ p ∈ ps, p.Holds ls log w := by
  obtain ⟨i, hi⟩ := h.stands
  obtain ⟨n, ps, -, hof, hholds⟩ := hm.of_standsFor hi
  exact ⟨n, ps, hof, hholds⟩

theorem Found.operand (hm : Mirror ls log w) (h : Found log w x) {p : Role} {y : Expr}
    (hy : (p, Node.expr y) ∈ Node.exprChildren x) : Found log w y := by
  obtain ⟨n, ps, hof, hholds⟩ := h.of_parts hm
  obtain ⟨j, hj⟩ := hof.exists_node _ hy y rfl
  exact ⟨h.verbatim.below _ hy, h.binds.below _ hy, j, hholds _ hj⟩

/-- The text of a verbatim expression that was read from lexemes without flaws. -/
theorem Found.exists_says (hm : Mirror ls log w) (hls : ∀ l ∈ ls, l.token.ReadApart)
    (hx : Found log w x) (h : x.Legible) : ∃ text, Says x text := by
  have hwritten : ∀ {t : Token} {span : Span}, Flat.Written ls t span → t.ReadApart := by
    rintro t span ⟨l, hl, rfl, -⟩
    exact hls l hl
  induction h with
  | ident =>
      obtain ⟨n, ps, hof, hholds⟩ := hx.of_parts hm
      cases hof
      exact ⟨_, says_ident (hwritten (hholds _ List.mem_cons_self).2.2)⟩
  | literal =>
      obtain ⟨n, ps, hof, hholds⟩ := hx.of_parts hm
      cases hof
      exact ⟨_, says_literal (hwritten (hholds _ List.mem_cons_self))⟩
  | paren _ ih =>
      obtain ⟨text, hsays⟩ := ih (hx.operand hm (.head _))
      exact ⟨_, says_paren hsays⟩
  | @selector _ x member _ ih =>
      obtain ⟨text, hsays⟩ := ih (hx.operand hm (.head _))
      have hmember : (Token.name member.text).ReadApart := by
        obtain ⟨n, ps, hof, hholds⟩ := hx.of_parts hm
        cases hof
        exact hwritten (hholds _ (.tail _ (.head _))).2.2
      have hnumber : x.isNumber = false := by simpa [Expr.isEchoed] using hx.verbatim.echoed
      exact ⟨_, says_selector hsays hx.binds.fits hnumber hmember⟩
  | index _ _ ih ihi =>
      obtain ⟨text, hsays⟩ := ih (hx.operand hm (.head _))
      obtain ⟨textI, hsaysI⟩ := ihi (hx.operand hm (.tail _ (.head _)))
      exact ⟨_, says_index hsays hx.binds.fits hsaysI⟩
  | indexList _ _ _ ih ihs =>
      obtain ⟨text, hsays⟩ := ih (hx.operand hm (.head _))
      refine exists_says_indexList hsays hx.binds.fits fun i hi => ?_
      exact ihs i hi (hx.operand hm (.tail _ (List.mem_map.mpr ⟨i, hi, rfl⟩)))
  | slice _ _ _ ih ihlo ihhi =>
      obtain ⟨text, hsays⟩ := ih (hx.operand hm (.head _))
      refine exists_says_slice hsays hx.binds.fits (fun y hy => ihlo y hy ?_)
        (fun y hy => ihhi y hy ?_) (by simp)
      · exact hx.operand hm (p := .lo) (by simp_all [Node.exprChildren, Node.expr?, Node.exprs])
      · exact hx.operand hm (p := .hi) (by simp_all [Node.exprChildren, Node.expr?, Node.exprs])
  | fullSlice _ _ _ _ ih ihlo ihhi ihmax =>
      obtain ⟨text, hsays⟩ := ih (hx.operand hm (.head _))
      refine exists_says_slice hsays hx.binds.fits (fun y hy => ihlo y hy ?_)
        (fun y hy => ?_) (fun y hy => ?_)
      · exact hx.operand hm (p := .lo) (by simp_all [Node.exprChildren, Node.expr?, Node.exprs])
      · obtain rfl := Option.mem_some_iff.mp hy
        exact ihhi (hx.operand hm (p := .hi) (by simp [Node.exprChildren, Node.expr?, Node.exprs]))
      · obtain rfl := Option.mem_some_iff.mp hy
        exact ihmax (hx.operand hm (p := .max) (by simp [Node.exprChildren, Node.expr?, Node.exprs]))
  | @typeGuard _ x _ ih =>
      obtain ⟨text, hsays⟩ := ih (hx.operand hm (.head _))
      have hnumber : x.isNumber = false := by simpa [Expr.isEchoed] using hx.verbatim.echoed
      exact ⟨_, says_typeGuard hsays hx.binds.fits hnumber⟩
  | @typeAssert _ x t _ _ _ ih iht =>
      obtain ⟨text, hsays⟩ := ih (hx.operand hm (.head _))
      obtain ⟨textT, hsaysT⟩ := iht (hx.operand hm (.tail _ (.head _)))
      have hnumber : x.isNumber = false := by simpa [Expr.isEchoed] using hx.verbatim.echoed
      exact ⟨_, says_typeAssert hsays hx.binds.fits hnumber hsaysT⟩
  | call _ _ ih ihs =>
      obtain ⟨text, hsays⟩ := ih (hx.operand hm (.head _))
      refine exists_says_call hsays hx.binds.fits fun a ha => ?_
      exact ihs a ha (hx.operand hm (.tail _ (List.mem_map.mpr ⟨a, ha, rfl⟩)))
  | star => exact absurd hx.verbatim.echoed (by simp [Expr.isEchoed])
  | @unary _ _ op x _ ih =>
      have hfound := hx.operand hm (.head _)
      obtain ⟨text, hsays⟩ := ih hfound
      have hunary : x.isUnary = false := by simpa [Expr.isEchoed] using hx.verbatim.echoed
      exact ⟨_, says_unary hsays (hfound.verbatim.seven_le_tightness hunary hx.binds.fits)⟩
  | @binary _ _ op _ _ _ _ ihl ihr =>
      obtain ⟨text, hsays⟩ := ihl (hx.operand hm (.head _))
      obtain ⟨textR, hsaysR⟩ := ihr (hx.operand hm (.tail _ (.head _)))
      have hwords : op.words = op.text := by
        have := hx.verbatim.echoed
        cases op <;> simp_all [Expr.isEchoed, BinaryOp.words]
      exact ⟨_, says_binary hsays hsaysR hwords⟩

end Found

/-! ## The main statement -/

theorem explain_of_parseExpr {src : String} {f : Fragment Expr} (h : parseExpr src = .ok f) :
    explain src = .ok f.root.english := by
  rw [explain, Category.order, explainFrom, Category.explain, h]
  rfl

/-- What a verbatim expression says is read as that expression, up to the places in it. -/
theorem exists_parseExpr_english {src : String} {f : Fragment Expr} (hf : parseExpr src = .ok f)
    (hv : f.root.Verbatim) : ∃ g, parseExpr f.root.english = .ok g ∧ g.root.bare = f.root.bare := by
  obtain ⟨_, hfares⟩ := wholeExpr_fares.read hf
  obtain ⟨hlegible, hneed⟩ := hfares hv
  have hbinds : (Node.expr f.root).Binds := (Fragment.Grouped.expr hf).tree
  have happart := readApart_of_mem (lexicalDiagnostics_of_read hf)
  obtain ⟨text, hsays⟩ : ∃ text, Says f.root text := by
    rcases read_together twin_wholeExpr src with ⟨e, -, he⟩ | ⟨_, g, log, -, hg, htogether⟩
    · cases hf.symm.trans he
    · obtain rfl : g = f := Except.ok.inj (hg.symm.trans hf)
      exact Found.exists_says htogether.mirror happart ⟨hv, hbinds, _, htogether.root⟩ hlegible
  have henglish : f.root.english.toList = text := by simpa [Expr.english] using hsays.write ""
  have hspelt : SpeltAs f.root.english.toList f.root.spelling [] := by
    rw [henglish]
    exact hsays.closed closed_nil
  obtain ⟨us, t, hus, hends⟩ := hlegible.exists_last
  obtain ⟨hflaws, ls, last, htokenize, hls⟩ := hspelt.tokenize (by simp [hus, hends])
  have hread : Reads False wholeExpr _ _ :=
    reads_wholeExpr_of_legible hlegible hbinds htokenize hls fun _ => by simpa [Cursor.start] using hneed
  exact (hread.read hflaws).resolve_right And.left

/--
**What a verbatim expression says is read as that expression.** It is the same up to the
places in it, and says the same, so that its text explains itself. What is said of a
literal is what the source has under its span, so this takes a source whose offsets fit
into a span; and what is said again of the text takes that of the text.
-/
theorem parseExpr_english {src : String} {f : Fragment Expr}
    (hsmall : src.utf8ByteSize ≤ Span.maxOffset) (hf : parseExpr src = .ok f)
    (hv : f.root.Verbatim) :
    let e := (f.root.recovered src).english
    ∃ g, parseExpr e = .ok g ∧ g.root.bare = (f.root.recovered src).bare ∧
      (e.utf8ByteSize ≤ Span.maxOffset → (g.root.recovered e).bare = (f.root.recovered src).bare ∧
        (g.root.recovered e).english = e ∧ explain e = .ok e) := by
  rw [recovered_of_parseExpr hsmall hf]
  obtain ⟨g, hg, hbare⟩ := exists_parseExpr_english hf hv
  have henglish : g.root.english = f.root.english := by
    rw [← Expr.english_bare, hbare, Expr.english_bare]
  refine ⟨g, hg, hbare, fun he => ?_⟩
  rw [recovered_of_parseExpr he hg, explain_of_parseExpr hg, henglish]
  exact ⟨hbare, rfl, rfl⟩

/-- Operators that would be others without blanks, and a comma that is not said. -/
theorem parseExpr_english_assertion :
    let src := "a.b[i:](<-c&^.5,\x22/*\x22,).(p.T[int])"
    let e := "a.b[i:](<-c &^ .5, \x22/*\x22).(p.T[int])"
    ∃ f g, parseExpr src = .ok f ∧ f.root.Verbatim ∧ (f.root.recovered src).english = e ∧
      parseExpr e = .ok g ∧ g.root.bare = (f.root.recovered src).bare ∧
      (g.root.recovered e).english = e ∧ explain e = .ok e := by
  intro src e
  have hok : ((parseExpr src).toOption.any fun f => decide f.root.Verbatim &&
      decide ((f.root.recovered src).english = e)) = true := by
    decide +kernel
  cases hf : parseExpr src with
  | error e => simp [hf, Except.toOption] at hok
  | ok f =>
      simp only [hf, Except.toOption, Option.any_some, Bool.and_eq_true, decide_eq_true_eq] at hok
      obtain ⟨g, hg, hbare, hagain⟩ := parseExpr_english (by decide +kernel) hf hok.1
      rw [hok.2] at hg hagain
      exact ⟨f, g, rfl, hok.1, hok.2, hg, hbare, (hagain (by decide +kernel)).2⟩

/-- Of a number behind the largest offset nothing is said, and that is no expression. -/
theorem english_behind_maxOffset : ∃ f, parseExpr (digitAfter (Span.maxOffset + 1)) = .ok f ∧
    f.root.Verbatim ∧ (f.root.recovered (digitAfter (Span.maxOffset + 1))).english = "" ∧
    ∀ g, parseExpr "" ≠ .ok g := by
  obtain ⟨f, hf, hroot⟩ := parseExpr_digitAfter (Span.maxOffset + 1)
  have hempty : (parseExpr "").toOption.isNone := by decide +kernel
  refine ⟨f, hf, ?_, ?_, fun g hg => ?_⟩
  · rw [hroot]
    rw [Expr.Verbatim, Node.Verbatim, Node.nodes_eq]
    simp [Node.children, Node.exprChildren, Node.isEchoed, Expr.isEchoed]
  · rw [hroot, Expr.recovered, Literal.recovered, Span.text_behind]
    rfl
  · rw [hg] at hempty
    cases hempty

end GoGloss
