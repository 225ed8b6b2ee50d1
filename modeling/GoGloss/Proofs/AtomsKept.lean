import Mathlib.Data.List.TakeWhile
import GoGloss.Proofs.Lossless
import GoGloss.Proofs.AtomsKept.Expressions
import GoGloss.Proofs.ReadBack.Expressions

/-!
# Reading keeps the atoms

Every production keeps the atoms, given that the productions one level further in
do. By induction on the levels the grammar as a whole does, so the tree of an
accepted source holds exactly the names and literals of its lexemes, in order.
-/

namespace GoGloss.Grammar

section Productions

variable {inner : Inner} (hi : inner.KeepsAtoms) {c : Cursor}
include hi

/-! ## Declarations -/

omit hi in
theorem importName?_atoms : KeepsAtoms importName? fun n => n.elim [] ImportName.atoms := by
  intro c
  simp only [importName?, yields_bind, yields_peek]
  split <;> rename_i hc
  · simp [hc, ImportName.atoms]
  · simp [ImportName.atoms]
    refine ⟨fun hblank => ?_, fun _ => name_atoms c⟩
    simpa using Cursor.atoms_eq_cons (c := c) (by rw [Lexeme.atom?, hc, hblank])
  · simp

omit hi in
theorem importSpec_atoms : KeepsAtoms importSpec Spec.atoms := by
  intro c
  simp [importSpec]
  refine (importName?_atoms c).mono fun n c₁ hn => ?_
  refine (textLiteral?_atoms c₁).mono fun path c₂ hpath => ?_
  cases path <;> simp_all

theorem initialValues_atoms : KeepsAtoms (initialValues inner) Expr.atomsAll := by
  intro c
  simp [initialValues]
  intro hassign
  simpa [hassign] using exprList_atoms hi c.advance

theorem constSpec_atoms : KeepsAtoms (constSpec inner) Spec.atoms := by
  intro c
  simp only [constSpec, yields_bind]
  refine (nameList_atoms c).mono fun names c₁ hnames => ?_
  simp only [yields_peek]
  split
  · simpa using hnames
  · simpa using hnames
  · simpa using hnames
  · simp
    refine (type?_atoms hi c₁).mono fun t c₂ ht => ?_
    refine (initialValues_atoms hi c₂).mono fun values c₃ hvalues => ?_
    simp_all

theorem varSpec_atoms : KeepsAtoms (varSpec inner) Spec.atoms := by
  intro c
  simp [varSpec]
  refine (nameList_atoms c).mono fun names c₁ hnames => ⟨fun _ => ?_, fun _ => ?_⟩
  · refine (initialValues_atoms hi c₁).mono fun values c₂ hvalues => ?_
    simp_all
  · refine (type_atoms hi c₁).mono fun t c₂ ht => ?_
    refine (initialValues_atoms hi c₂).mono fun values c₃ hvalues => ?_
    simp_all

theorem typeSpec_atoms : KeepsAtoms (typeSpec inner) Spec.atoms := by
  intro c
  simp [typeSpec]
  refine (name_atoms c).mono fun n c₁ hn => ⟨fun hassign => ?_, fun _ => ?_⟩
  · refine (type_atoms hi _).mono fun t c₂ ht => ?_
    simp_all
  · refine (type_atoms hi c₁).mono fun t c₂ ht => ?_
    simp_all

theorem spec_atoms (word : DeclWord) : KeepsAtoms (spec inner word) Spec.atoms := by
  cases word with
  | import_ => exact importSpec_atoms
  | const_ => exact constSpec_atoms hi
  | var_ => exact varSpec_atoms hi
  | type_ => exact typeSpec_atoms hi

theorem groupDecl_atoms : KeepsAtoms (groupDecl inner) Decl.atoms := by
  intro c
  simp only [groupDecl, yields_bind, yields_here, yields_peek]
  split <;> rename_i hword
  · simp
  · have hc := DeclWord.isFixed_of_ofToken? hword
    simp
    refine ⟨fun hopen => ?_, fun _ => ?_⟩
    · refine ((spec_atoms hi _).endedListUntil _).mono fun specs c₁ hspecs hclose => ?_
      simp_all [Spec.atomsAll_eq]
    · refine (spec_atoms hi _ _).mono fun s c₁ hs => ?_
      simp_all

theorem funcDecl_atoms : KeepsAtoms (funcDecl inner) Decl.atoms := by
  intro c
  simp [funcDecl]
  refine fun hfunc => ⟨fun _ => ?_, fun _ => ?_⟩
  · -- a method
    refine (parameters_atoms hi _).mono fun receiver c₁ hreceiver => ?_
    refine (name_atoms c₁).mono fun n c₂ hn => ?_
    refine (signature_atoms hi c₂).mono fun s c₃ hs => ⟨fun _ => ?_, fun _ => by simp_all⟩
    refine (block_atoms hi _).mono fun body c₄ hbody => ?_
    simp_all
  · refine (name_atoms _).mono fun n c₁ hn => ?_
    refine (signature_atoms hi c₁).mono fun s c₂ hs => ⟨fun _ => ?_, fun _ => by simp_all⟩
    refine (block_atoms hi _).mono fun body c₃ hbody => ?_
    simp_all

theorem decl_atoms : KeepsAtoms (decl inner) Decl.atoms := by
  intro c
  simp [decl]
  exact ⟨fun _ => funcDecl_atoms hi c, fun _ => groupDecl_atoms hi c⟩

/-! ## Simple statements -/

theorem assignment_atoms (start : Nat) (lhs : List Expr) (op : AssignOp)
    (hc : isFixed c.head.token) :
    Yields (assignment inner start lhs op) c fun s c' =>
      Expr.atomsAll lhs ++ c.atoms = s.atoms ++ c'.atoms := by
  simp [assignment]
  simpa [hc] using exprList_atoms hi c.advance

theorem afterExpr_atoms (start : Nat) (x : Expr) (c : Cursor) :
    Yields (afterExpr inner start x) c fun s c' => x.atoms ++ c.atoms = s.atoms ++ c'.atoms := by
  simp only [afterExpr, yields_bind, yields_peek]
  split <;> rename_i hc
  · simp
    simpa [hc] using expr_atoms hi c.advance
  · split <;> rename_i hop
    · simp [StepOp.isFixed_of_ofToken? hop]
    · simp

theorem afterExprs_atoms (start : Nat) (lhs : List Expr) (c : Cursor) :
    Yields (afterExprs inner start lhs) c fun s c' =>
      Expr.atomsAll lhs ++ c.atoms = s.atoms ++ c'.atoms := by
  simp only [afterExprs, yields_bind, yields_peek]
  split <;> rename_i hop
  · exact assignment_atoms hi start lhs _ (AssignOp.isFixed_of_ofToken? hop)
  · rw [yields_bind, yields_oneExpr]
    rintro x rfl
    simpa using afterExpr_atoms hi start x c

theorem simpleStmt_atoms : KeepsAtoms (simpleStmt inner) Stmt.atoms := by
  intro c
  simp [simpleStmt]
  refine (exprList_atoms hi c).mono fun lhs c₁ hlhs => ?_
  exact (afterExprs_atoms hi _ lhs c₁).mono fun s c₂ hs => hlhs.trans hs

theorem simpleOrLabeled_atoms : KeepsAtoms (simpleOrLabeled inner) Stmt.atoms := by
  intro c
  simp only [simpleOrLabeled, yields_bind, yields_here]
  refine (exprList_atoms hi c).mono fun lhs c₁ hlhs => ?_
  simp only [yields_peek]
  split <;> rename_i hc
  · simp
    refine (stmt_atoms hi _).mono fun s c₂ hs => ?_
    simp_all
  · exact (afterExprs_atoms hi _ _ c₁).mono fun s c₂ hs => hlhs.trans hs

/-! ## Control statements -/

omit hi in
theorem yields_headerExpr {part : HeaderPart} {s : Stmt} {post : Expr → Cursor → Prop}
    (h : ∀ x, s.atoms = x.atoms → post x c) : Yields (headerExpr part s) c post := by
  rw [yields_headerExpr_iff]
  rintro span x rfl
  exact h x rfl

theorem ifHeader_atoms : KeepsAtoms (ifHeader inner) fun header =>
    Stmt.atomsOption header.1 ++ header.2.atoms := by
  intro c
  simp [ifHeader]
  refine fun _ => ⟨fun _ hsemi _ => ?_, fun _ => ?_⟩
  · refine (simpleStmt_atoms hi _).mono fun s c₁ hs => yields_headerExpr fun x hx => ?_
    simp_all
  · refine (simpleStmt_atoms hi _).mono fun init c₁ hinit => ⟨fun hsemi _ => ?_, fun _ => ?_⟩
    · refine (simpleStmt_atoms hi _).mono fun s c₂ hs => yields_headerExpr fun x hx => ?_
      simp_all
    · refine yields_headerExpr fun x hx => ?_
      simp_all

theorem ifStmt_atoms : KeepsAtoms (ifStmt inner) Stmt.atoms := by
  intro c
  simp only [ifStmt, yields_bind, yields_here, yields_discard, yields_expect]
  intro hif
  refine (ifHeader_atoms hi _).mono fun header c₁ hheader => ?_
  refine (block_atoms hi c₁).mono fun body c₂ hbody => ?_
  simp
  refine ⟨fun helse => ?_, fun _ => by simp_all⟩
  split
  · simp
    intro _
    refine (hi.ifStmt _).mono fun s c₃ hs => ?_
    simp_all
  · simp
    refine (block_atoms hi _).mono fun b c₃ hb => ?_
    simp_all
  · simp

/-- The atoms of the header of a `for`. -/
def ForHeader.atoms : ForHeader Expr Stmt → List Atom
  | .range key value _ operand =>
    Expr.atomsOption key ++ Expr.atomsOption value ++ operand.atoms
  | .clauses init cond post =>
    Stmt.atomsOption init ++ Stmt.atomsOption cond ++ Stmt.atomsOption post

theorem rangeClause_atoms (vars : List Expr) (op : AssignOp) (c : Cursor) :
    Yields (rangeClause inner vars op) c fun h c' =>
      Expr.atomsAll vars ++ c.atoms = h.atoms ++ c'.atoms := by
  match vars with
  | [] | [_] | [_, _] => simpa [rangeClause, ForHeader.atoms] using expr_atoms hi c
  | _ :: _ :: extra :: _ => simp [rangeClause]

theorem forStart_atoms : KeepsAtoms (forStart inner) (Sum.elim Stmt.atoms ForHeader.atoms) := by
  intro c
  simp only [forStart, yields_bind, yields_here]
  refine (exprList_atoms hi c).mono fun lhs c₁ hlhs => ?_
  simp only [yields_peek]
  split <;> rename_i hop
  · rw [yields_map, yields_bind, yields_oneExpr]
    rintro x rfl
    refine (afterExpr_atoms hi _ x c₁).mono fun s c₂ hs => ?_
    simp_all
  · have hc := AssignOp.isFixed_of_ofToken? hop
    simp
    refine ⟨fun _ hrange => ?_, fun _ => ?_⟩
    · refine (rangeClause_atoms hi lhs _ _).mono fun h c₂ hh => ?_
      simp_all
    · refine (exprList_atoms hi _).mono fun rhs c₂ hrhs => ?_
      simp_all

theorem forClauses_atoms (first : Option Stmt) (c : Cursor) :
    Yields (forClauses inner first) c fun h c' =>
      Stmt.atomsOption first ++ c.atoms = h.atoms ++ c'.atoms := by
  simp [forClauses, ForHeader.atoms]
  refine fun hsemi => ⟨fun hsemi₂ => ?_, fun _ => ?_⟩
  · refine (expectEnd_atoms _).mono fun _ c₁ hend => ⟨fun _ => by simp_all, fun _ => ?_⟩
    refine (simpleStmt_atoms hi c₁).mono fun post c₂ hpost => ?_
    simp_all
  · refine (simpleStmt_atoms hi _).mono fun cond c₁ hcond => ?_
    refine (expectEnd_atoms _).mono fun _ c₂ hend => ⟨fun _ => by simp_all, fun _ => ?_⟩
    refine (simpleStmt_atoms hi c₂).mono fun post c₃ hpost => ?_
    simp_all

theorem forHeader_atoms : KeepsAtoms (forHeader inner) ForHeader.atoms := by
  intro c
  simp only [forHeader, yields_bind, yields_peek]
  split <;> rename_i hc
  · simp [ForHeader.atoms]
  · simpa using forClauses_atoms hi none c
  · simp [ForHeader.atoms]
    simpa [hc] using expr_atoms hi c.advance
  · rw [yields_bind]
    refine (forStart_atoms hi c).mono fun start c₁ hstart => ?_
    cases start with
    | inl first =>
        refine (forClauses_atoms hi (some first) c₁).mono fun h c₂ hh => ?_
        simp_all
    | inr clause => simpa using hstart

omit hi in
theorem yields_loopCondition {s : Option Stmt} {post : Option Expr → Cursor → Prop}
    (h : ∀ x, Stmt.atomsOption s = Expr.atomsOption x → post x c) :
    Yields (loopCondition s) c post := by
  rw [yields_loopCondition_iff]
  refine ⟨?_, ?_⟩
  · rintro rfl
    exact h none rfl
  · rintro span x rfl
    exact h (some x) rfl

theorem forStmt_atoms : KeepsAtoms (forStmt inner) Stmt.atoms := by
  intro c
  simp only [forStmt, yields_bind, yields_here, yields_discard, yields_expect, yields_inHeader]
  intro hfor
  refine (forHeader_atoms hi _).mono fun header c₁ hheader => ?_
  refine (block_atoms hi _).mono fun body c₂ hbody => ?_
  cases header with
  | range key value op x => simp_all [ForHeader.atoms]
  | clauses init cond post =>
      simp only [yields_bind]
      refine yields_checkPost (yields_loopCondition fun x hx => ?_)
      simp_all [ForHeader.atoms]

theorem switchHeader_atoms : KeepsAtoms (switchHeader inner) fun header =>
    Stmt.atomsOption header.1 ++ Stmt.atomsOption header.2 := by
  intro c
  simp [switchHeader]
  refine fun _ => ⟨fun hsemi => ⟨fun _ => by simp [hsemi], fun _ => ?_⟩, fun _ => ?_⟩
  · simpa [hsemi] using simpleStmt_atoms hi c.advance
  · refine (simpleStmt_atoms hi c).mono fun first c₁ hfirst => ⟨fun hsemi => ?_, fun _ => hfirst⟩
    refine ⟨fun _ => by simp_all, fun _ => (simpleStmt_atoms hi _).mono fun tag c₂ htag => ?_⟩
    simp_all

theorem caseClause_atoms (types : Bool) : KeepsAtoms (caseClause inner types) Stmt.atoms := by
  intro c
  have htypes : KeepsAtoms (commaList (type inner)) Expr.atomsAll :=
    (type_atoms hi).commaList.mono fun xs => (Expr.atomsAll_eq xs).symm
  simp [caseClause]
  refine ⟨fun hcase => ⟨fun _ => ?_, fun _ => ?_⟩, fun _ hdefault hcolon => ?_⟩
  · refine (htypes _).mono fun cases c₁ hcases hcolon => ?_
    refine (stmtList_atoms hi _).mono fun body c₂ hbody => ?_
    simp_all
  · refine (exprList_atoms hi _).mono fun cases c₁ hcases hcolon => ?_
    refine (stmtList_atoms hi _).mono fun body c₂ hbody => ?_
    simp_all
  · refine (stmtList_atoms hi _).mono fun body c₁ hbody => ?_
    simp_all

theorem commClause_atoms : KeepsAtoms (commClause inner) Stmt.atoms := by
  intro c
  simp [commClause]
  refine ⟨fun hcase => ?_, fun _ hdefault hcolon => ?_⟩
  · refine (simpleStmt_atoms hi _).mono fun comm c₁ hcomm hcolon => ?_
    refine (stmtList_atoms hi _).mono fun body c₂ hbody => ?_
    simp_all
  · refine (stmtList_atoms hi _).mono fun body c₁ hbody => ?_
    simp_all

omit hi in
theorem clauseBlock_atoms {clause : Parser Stmt} (h : KeepsAtoms clause Stmt.atoms) :
    KeepsAtoms (clauseBlock clause) Block.atoms := by
  intro c
  simp only [clauseBlock, yields_bind, yields_expect, yields_pure]
  intro hopen
  refine (KeepsAtoms.collect (f := Stmt.atoms) (fun c₁ => ?_) c.advance).mono
    fun clauses c₁ hclauses hclose => ?_
  · simp only [yields_bind, yields_peek]
    split
    · simpa [Round.atoms] using h c₁
    · simpa [Round.atoms] using h c₁
    · simp [Round.atoms]
  · simp_all [Stmt.atomsAll_eq]

theorem switchStmt_atoms : KeepsAtoms (switchStmt inner) Stmt.atoms := by
  intro c
  simp only [switchStmt, yields_bind, yields_here, yields_discard, yields_expect,
    yields_inHeader]
  intro hswitch
  refine (switchHeader_atoms hi _).mono fun header c₁ hheader => ?_
  refine (clauseBlock_atoms (caseClause_atoms hi _) _).mono fun body c₂ hbody => ?_
  obtain ⟨init, tag⟩ := header
  cases tag with
  | none => simp_all
  | some tag =>
      simp
      refine ⟨fun _ => by simp_all, fun _ => yields_headerExpr fun x hx => ?_⟩
      simp_all

theorem selectStmt_atoms (hc : isFixed c.head.token) :
    Yields (selectStmt inner) c fun s c' => c.atoms = s.atoms ++ c'.atoms := by
  simp [selectStmt]
  refine (clauseBlock_atoms (commClause_atoms hi) _).mono fun body c₁ hbody => ?_
  simp_all

/-! ## All statements -/

theorem callAfter_atoms (word : Keyword) : KeepsAtoms (callAfter inner word) Expr.atoms := by
  intro c
  simp [callAfter]
  exact (expr_atoms hi c).mono fun x c₁ hx _ => hx

theorem goStmt_atoms (hc : isFixed c.head.token) :
    Yields (goStmt inner) c fun s c' => c.atoms = s.atoms ++ c'.atoms := by
  simp [goStmt]
  simpa [hc] using callAfter_atoms hi .go_ c.advance

theorem deferStmt_atoms (hc : isFixed c.head.token) :
    Yields (deferStmt inner) c fun s c' => c.atoms = s.atoms ++ c'.atoms := by
  simp [deferStmt]
  simpa [hc] using callAfter_atoms hi .defer_ c.advance

theorem returnStmt_atoms (hc : isFixed c.head.token) :
    Yields (returnStmt inner) c fun s c' => c.atoms = s.atoms ++ c'.atoms := by
  simp only [returnStmt, yields_bind, yields_here, yields_take, yields_peek]
  split
  · simp [hc]
  · simp [hc]
  · simp [hc]
  · simpa [hc] using exprList_atoms hi c.advance

omit hi in
theorem jumpLabel_atoms (kind : Jump) :
    KeepsAtoms (jumpLabel kind) fun label => label.toList.map .name := by
  intro c
  unfold jumpLabel
  split
  · simp
  · simp only [yields_bind, yields_peek]
    split
    · simpa using name_atoms c
    · simp

omit hi in
theorem jumpStmt_atoms (kind : Jump) (hc : isFixed c.head.token) :
    Yields (jumpStmt kind) c fun s c' => c.atoms = s.atoms ++ c'.atoms := by
  simp [jumpStmt]
  simpa [hc] using jumpLabel_atoms kind c.advance

theorem blockStmt_atoms : KeepsAtoms (blockStmt inner) Stmt.atoms := by
  intro c
  simpa [blockStmt] using block_atoms hi c

theorem declStmt_atoms : KeepsAtoms (declStmt inner) Stmt.atoms := by
  intro c
  simpa [declStmt] using groupDecl_atoms hi c

theorem stmtHere_atoms : KeepsAtoms (stmtHere inner) Stmt.atoms := by
  intro c
  simp only [stmtHere, yields_bind, yields_peek]
  split <;> rename_i hc
  iterate 3 simp [emptyStmt]
  iterate 3 exact declStmt_atoms hi c
  · exact goStmt_atoms hi (by simp [hc])
  · exact deferStmt_atoms hi (by simp [hc])
  · exact returnStmt_atoms hi (by simp [hc])
  · exact blockStmt_atoms hi c
  · exact ifStmt_atoms hi c
  · exact forStmt_atoms hi c
  · exact switchStmt_atoms hi c
  · exact selectStmt_atoms hi (by simp [hc])
  · split <;> rename_i hjump
    · exact jumpStmt_atoms _ (Jump.isFixed_of_ofToken? hjump)
    · simp
      exact fun _ => simpleOrLabeled_atoms hi c

end Productions

/-! ## All levels -/

theorem Inner.keepsAtoms_none : Inner.none.KeepsAtoms where
  binary _ _ := yields_failHere
  unary _ := yields_failHere
  type? _ := yields_failHere
  literalValue _ _ _ := yields_failHere
  stmt _ := yields_failHere
  ifStmt _ := yields_failHere

theorem Inner.KeepsAtoms.over {deeper : Inner} (h : deeper.KeepsAtoms) :
    (Inner.over deeper).KeepsAtoms where
  binary := binary_atoms h
  unary := unary_atoms h
  type? := typeHere?_atoms h
  literalValue := literalValue_atoms h
  stmt := stmtHere_atoms h
  ifStmt := ifStmt_atoms h

theorem inner_keepsAtoms (n : Nat) : (inner n).KeepsAtoms := by
  induction n with
  | zero => exact Inner.keepsAtoms_none
  | succ n ih => exact ih.over

theorem skipSemicolons_atoms : KeepsAtoms skipSemicolons fun _ => [] := by
  intro c
  refine yields_extend (I := fun _ c' => c.atoms = [] ++ c'.atoms) rfl fun _ c₁ h => ?_
  simp +contextual [h]

theorem wholeExpr_atoms (c : Cursor) : Yields wholeExpr c fun x _ => c.atoms = x.atoms := by
  simp [wholeExpr]
  refine (expr_atoms (inner_keepsAtoms _) c).mono fun x c₁ hx => ⟨fun hline heof => ?_, ?_⟩
  · have hsemi : c₁.head.token = .mark .semicolon := by
      simp [Lexeme.isLineEnd] at hline
      exact hline.1
    have hend := Cursor.atoms_eq_nil heof
    simp_all
  · intro _ heof
    simp [hx, Cursor.atoms_eq_nil heof]

theorem wholeDecl_atoms (c : Cursor) : Yields wholeDecl c fun d _ => c.atoms = d.atoms := by
  simp [wholeDecl]
  refine (decl_atoms (inner_keepsAtoms _) c).mono fun d c₁ hd => ?_
  refine (expectEnd_atoms c₁).mono fun _ c₂ hend => ?_
  refine (skipSemicolons_atoms c₂).mono fun _ c₃ hskip heof => ?_
  rw [hd, hend, hskip, Cursor.atoms_eq_nil heof]
  simp

theorem wholeStmt_atoms (c : Cursor) : Yields wholeStmt c fun s _ => c.atoms = s.atoms := by
  simp [wholeStmt]
  refine (stmt_atoms (inner_keepsAtoms _) c).mono fun s c₁ hs => ?_
  refine (expectEnd_atoms c₁).mono fun _ c₂ hend => ?_
  refine (skipSemicolons_atoms c₂).mono fun _ c₃ hskip heof => ?_
  rw [hs, hend, hskip, Cursor.atoms_eq_nil heof]
  simp

/-- At its start a source has the atoms of all its lexemes ahead. -/
theorem Cursor.atoms_start (src : String) :
    (Cursor.start (tokenize src) src.utf8ByteSize).atoms =
      (tokenize src).filterMap Lexeme.atom? := by
  have hall : ∀ l ∈ tokenize src, decide (l.token ≠ .eof) = true := fun l hl =>
    decide_eq_true (ne_eof_of_mem_tokenize hl)
  rw [atoms, start, List.takeWhile_eq_self_iff.mpr hall]

end GoGloss.Grammar

namespace GoGloss

open Grammar

/-! ## The atoms of accepted sources -/

theorem parseExpr_atoms {src : String} {f : Fragment Expr} (hf : parseExpr src = .ok f) :
    f.root.atoms = (tokenize src).filterMap Lexeme.atom? := by
  obtain ⟨_, h⟩ := (wholeExpr_atoms _).read hf
  rw [← h, Cursor.atoms_start]

theorem parseDecl_atoms {src : String} {f : Fragment Decl} (hf : parseDecl src = .ok f) :
    f.root.atoms = (tokenize src).filterMap Lexeme.atom? := by
  obtain ⟨_, h⟩ := (wholeDecl_atoms _).read hf
  rw [← h, Cursor.atoms_start]

theorem parseStmt_atoms {src : String} {f : Fragment Stmt} (hf : parseStmt src = .ok f) :
    f.root.atoms = (tokenize src).filterMap Lexeme.atom? := by
  obtain ⟨_, h⟩ := (wholeStmt_atoms _).read hf
  rw [← h, Cursor.atoms_start]

/-! ## Their texts -/

theorem Lexeme.isSome_atom? (l : Lexeme) : l.atom?.isSome = l.token.hasOwnText := by
  unfold Lexeme.atom?
  split <;> simp_all [Token.hasOwnText]

section Texts

variable {src : String} (hsmall : src.utf8ByteSize ≤ Span.maxOffset)
include hsmall

/-- As long as the offsets of the source fit into a span, an atom is intact. -/
theorem Lexeme.intact_of_atom? {l : Lexeme} {a : Atom} (hl : l ∈ tokenize src)
    (ha : l.atom? = some a) : a.Intact src := by
  unfold Lexeme.atom? at ha
  split at ha <;> cases ha <;> rename_i htoken
  · trivial
  · have htext := text_span_of_mem hsmall hl (by rw [htoken]; rfl)
    rwa [htoken] at htext

theorem Lexeme.text_of_atom? {l : Lexeme} {a : Atom} (hl : l ∈ tokenize src)
    (ha : l.atom? = some a) : a.text src = l.token.text := by
  have hintact := Lexeme.intact_of_atom? hsmall hl ha
  unfold Lexeme.atom? at ha
  split at ha <;> cases ha <;> rename_i htoken <;> rw [htoken]
  · rfl
  · exact hintact

/-- The copies of literals in a tree are what the source has. -/
theorem recovered_of_parseExpr {f : Fragment Expr} (hf : parseExpr src = .ok f) :
    f.root.recovered src = f.root := by
  refine f.root.recovered_eq fun a ha => ?_
  rw [parseExpr_atoms hf] at ha
  obtain ⟨l, hl, hla⟩ := List.mem_filterMap.mp ha
  exact Lexeme.intact_of_atom? hsmall hl hla

theorem map_text_atoms {ls : List Lexeme} (hls : ∀ l ∈ ls, l ∈ tokenize src) :
    (ls.filterMap Lexeme.atom?).map (Atom.text src) = ownTexts ls := by
  induction ls with
  | nil => rfl
  | cons l ls ih =>
      have ih := ih fun l' hl' => hls l' (List.mem_cons_of_mem _ hl')
      have hsome := l.isSome_atom?
      cases ha : l.atom? with
      | none => simp_all [ownTexts]
      | some a =>
          have htext := Lexeme.text_of_atom? hsmall (hls l List.mem_cons_self) ha
          simp_all [ownTexts]

end Texts

/--
**Reading keeps the texts.** The names and literals of an accepted source, taken off its
lexemes in order, are those met on a walk of the tree, as long as the offsets of the
source fit into a span.
-/
theorem parsed_texts (src : String) (hsmall : src.utf8ByteSize ≤ Span.maxOffset) :
    (∀ f, parseExpr src = .ok f → f.root.texts src = ownTexts (tokenize src)) ∧
    (∀ f, parseDecl src = .ok f → f.root.texts src = ownTexts (tokenize src)) ∧
    (∀ f, parseStmt src = .ok f → f.root.texts src = ownTexts (tokenize src)) := by
  rw [← map_text_atoms hsmall fun _ => id]
  exact ⟨fun f hf => congrArg _ (parseExpr_atoms hf), fun f hf => congrArg _ (parseDecl_atoms hf),
    fun f hf => congrArg _ (parseStmt_atoms hf)⟩

/-- A method with a label in its body. -/
theorem parsed_texts_method :
    let src := "func (r T) f(a, b int) \x7b L: for \x7b break L \x7d \x7d"
    src.utf8ByteSize ≤ Span.maxOffset ∧ ∃ f, parseDecl src = .ok f ∧
      f.root.texts src = ["r", "T", "f", "a", "b", "int", "L", "L"] := by
  intro src
  have hsmall : src.utf8ByteSize ≤ Span.maxOffset := by decide +kernel
  have hok : (parseDecl src).toOption.isSome := by decide +kernel
  have htexts : ownTexts (tokenize src) = ["r", "T", "f", "a", "b", "int", "L", "L"] := by
    decide +kernel
  cases hf : parseDecl src with
  | error e => simp [hf, Except.toOption] at hok
  | ok f => exact ⟨hsmall, f, rfl, ((parsed_texts src hsmall).2.1 f hf).trans htexts⟩

/-! ## Beyond the largest offset -/

/-- A digit after `n` blanks. -/
def digitAfter (n : Nat) : String :=
  String.ofList (List.replicate n ' ' ++ ['1'])

theorem tokenize_digitAfter (n : Nat) :
    tokenize (digitAfter n) = [⟨n, n + 1, .literal .int "1"⟩] ++ [.lineEnd (n + 1)] := by
  have hblanks (offset : Nat) : Lexeme.ofPieces false offset
      (Piece.cut 0 (List.replicate n ' ' ++ ['1'])) =
      [⟨offset + n, offset + n + 1, .literal .int "1"⟩] ++ [.lineEnd (offset + n + 1)] := by
    induction n generalizing offset with
    | zero => rfl
    | succ n ih =>
        rw [Nat.add_comm n 1, ← Nat.add_assoc, ← ih (offset + 1), Nat.add_comm 1 n]
        rfl
  rw [tokenize, Piece.ofSource, digitAfter, String.toList_ofList, hblanks, Nat.zero_add]

theorem parseExpr_digitAfter (n : Nat) : ∃ f, parseExpr (digitAfter n) = .ok f ∧
    f.root = .literal ⟨.int, .of n (n + 1), "1"⟩ := by
  have hls := tokenize_digitAfter n
  have hbinds : (Node.expr (.literal ⟨.int, default, "1"⟩)).Binds := by
    simp [Node.binds_expr, Expr.Fits, Node.exprChildren]
  have hread : Reads False wholeExpr _ _ :=
    reads_wholeExpr_of_legible .literal hbinds hls rfl fun _ => by decide
  obtain ⟨f, hf, hbare⟩ := (hread.read (by rw [hls]; rfl)).resolve_right And.left
  refine ⟨f, hf, ?_⟩
  have hatoms : f.root.atoms = [.literal ⟨.int, .of n (n + 1), "1"⟩] := by
    rw [parseExpr_atoms hf, hls]
    rfl
  cases hroot : f.root <;> simp_all [Expr.bare]

theorem Span.text_point (src : String) (offset : Nat) : (Span.point offset).text src = "" := by
  rw [Span.text, Span.point, Span.of, slice?, if_pos (Nat.le_refl _), Nat.sub_self]
  cases dropBytes? (min offset maxOffset) src.toList with
  | none => rfl
  | some cs => cases cs <;> rfl

/-- What is read behind the largest offset has no text under its span. -/
theorem Span.text_behind (src : String) :
    (Span.of (maxOffset + 1) (maxOffset + 1 + 1)).text src = "" :=
  Span.text_point src maxOffset

/-- A number behind the largest offset is read, and its text is lost. -/
theorem texts_behind_maxOffset : ∃ f, parseExpr (digitAfter (Span.maxOffset + 1)) = .ok f ∧
    ownTexts (tokenize (digitAfter (Span.maxOffset + 1))) = ["1"] ∧
    f.root.texts (digitAfter (Span.maxOffset + 1)) = [""] := by
  obtain ⟨f, hf, hroot⟩ := parseExpr_digitAfter (Span.maxOffset + 1)
  refine ⟨f, hf, ?_, ?_⟩
  · rw [tokenize_digitAfter]
    rfl
  · rw [hroot, Expr.texts, Expr.atoms, List.map_singleton, Atom.text, Span.text_behind]

end GoGloss
