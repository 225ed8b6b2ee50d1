import GoGloss.Proofs.Brackets
import GoGloss.Proofs.Placement

/-!
# Readings are diagnosed

Should a production stop, it complains about bytes of the source, and what it takes are
legal tokens, so a source with a flaw is never read to its end. Therefore a failure always
has one complaint of the grammar, after those about the flaws.
-/

namespace GoGloss

open Grammar

variable {α : Type}

/-- What may come of reading `src` with the production `root`. -/
structure Reported (src : String) (root : Parser α) (result : Except Failure (Fragment α)) :
    Prop where
  /-- Only a source without flaws is accepted. -/
  accepted : ∀ f, result = .ok f → lexicalDiagnostics (tokenize src) = []
  /-- A failure lists the flaws, in order, and then one complaint of the grammar. -/
  complaints : ∀ e, result = .error e → ∃ d, d.stage = .parsing ∧
    e.diagnostics = lexicalDiagnostics (tokenize src) ++ [d]
  /-- Every complaint is about bytes of the source. -/
  inside : ∀ e, result = .error e → ∀ d ∈ e.diagnostics,
    d.span.start ≤ d.span.stop ∧ d.span.stop ≤ src.utf8ByteSize
  /-- A failure stands where its first complaint starts. -/
  position : ∀ e, result = .error e → ∃ d, e.diagnostics.head? = some d ∧
    e.position = Position.locate src d.span.start
  /-- It is the production itself that stops at a flawed source. -/
  stopped : (∃ l ∈ tokenize src, ∃ flaw, l.token = .illegal flaw) →
    ∃ e c, root (Cursor.start (tokenize src) src.utf8ByteSize) = .error e c

theorem lexicalDiagnostics_inside {src : String} {d : Diagnostic}
    (hd : d ∈ lexicalDiagnostics (tokenize src)) : d.span.Inside src.utf8ByteSize := by
  obtain ⟨l, hl, hlex⟩ := List.mem_filterMap.mp hd
  have hbounds := ((layout_tokenize src).liesIn l hl).bounds
  rw [Nat.zero_add, byteSize_toList] at hbounds
  unfold Lexeme.diagnostic? at hlex
  split at hlex
  · cases hlex
    exact Span.inside_of hbounds.2.1 hbounds.2.2
  · cases hlex

/-- Only flawed stretches of source are diagnosed. -/
theorem lexicalDiagnostics_eq_nil {ls : List Lexeme} (h : ∀ l ∈ ls, l.token.isLegal) :
    lexicalDiagnostics ls = [] := by
  refine List.filterMap_eq_nil_iff.mpr fun l hl => ?_
  have hlegal := h l hl
  unfold Lexeme.diagnostic?
  split <;> simp_all [Token.isLegal]

theorem Grammar.BalancesAll.reported {src : String} {root : Parser α} [Placed α]
    (hlegal : BalancesAll root)
    (hinside : Nests false src 0 (Cursor.start (tokenize src) src.utf8ByteSize) root) :
    Reported src root (Fragment.read root src) := by
  have hends := hinside.settles.read
  rcases hends with ⟨a, c, hrun, -⟩ | ⟨e, c, hrun, hinside⟩
  · -- the source is accepted
    have hlegal := (hlegal.tokens hrun).1
    have hread : Fragment.read root src = .ok ⟨a, c.bench⟩ := by
      simp [Fragment.read, hrun, lexicalDiagnostics_eq_nil hlegal]
    refine ⟨fun _ _ => lexicalDiagnostics_eq_nil hlegal, ?_, ?_, ?_, ?_⟩
    iterate 3 simp [hread]
    rintro ⟨l, hl, flaw, hflaw⟩
    have := hlegal l hl
    simp [hflaw, Token.isLegal] at this
  · -- the production stops with the fault `e`
    have hread : Fragment.read root src =
        .error (Failure.of src (lexicalDiagnostics (tokenize src) ++ [e.diagnostic])) := by
      simp [Fragment.read, hrun]
    rw [hread]
    refine ⟨?_, ?_, ?_, ?_, fun _ => ⟨e, c, hrun⟩⟩
    · rintro f ⟨⟩
    · rintro _ ⟨⟩
      exact ⟨e.diagnostic, rfl, rfl⟩
    · rintro _ ⟨⟩ d hd
      rcases List.mem_append.mp hd with hd | hd
      · exact lexicalDiagnostics_inside hd
      · rw [List.mem_singleton.mp hd]
        exact hinside
    · rintro _ ⟨⟩
      cases hflaws : lexicalDiagnostics (tokenize src) with
      | nil => exact ⟨e.diagnostic, rfl, rfl⟩
      | cons d ds => exact ⟨d, rfl, rfl⟩

/--
However a source is read, a failure lists its flaws and then exactly one syntax
fault, all of them inside the source, and a flawed source is never accepted.
-/
theorem readings_reported (src : String) :
    Reported src wholeExpr (parseExpr src) ∧ Reported src wholeDecl (parseDecl src) ∧
      Reported src wholeStmt (parseStmt src) :=
  ⟨wholeExpr_balances.reported inferInstance, wholeDecl_balances.reported inferInstance,
    wholeStmt_balances.reported inferInstance⟩

end GoGloss
