import GoGloss.Explanation
import GoGloss.Proofs.Agreement

/-!
# Sources with the same tokens

Blanks, comments and the places of the tokens are for the eye of a reader. Two
sources whose lexemes look the same are read alike: as the same tree up to its
places and with the same English, or not at all and for the same reason.

The readers of a level agree with themselves, so the readers of whole sources do.
-/

namespace GoGloss

namespace Grammar

variable {k : Nat}

theorem Inner.none_agree : Inner.none.Agree k Inner.none where
  binary _ := agree_failHere
  unary := agree_failHere
  type? := agree_failHere
  literalValue _ _ _ := agree_failHere
  stmt := agree_failHere
  ifStmt := agree_failHere

/-- The productions of a level agree with themselves, however deep the two start. -/
theorem inner_agree_self (n : Nat) : (inner n).Agree k (inner n) := by
  induction n with
  | zero => exact Inner.none_agree
  | succ n ih => exact ih.over

/-! ## Declarations -/

section Productions

variable {inner inner' : Inner} (hi : inner.Agree k inner')
include hi

theorem funcDecl_agree : Agree k Decl.bare (funcDecl inner) (funcDecl inner') := by
  refine agree_here.bind fun start start' _ => (agree_expect _).bind fun func func' _ => ?_
  refine (agree_isAt _).same fun _ => ?_
  refine Agree.join (parameters_agree hi).some (agree_pure rfl) fun receiver receiver' hr => ?_
  have hreceiver : receiver.map Field.bareAll = receiver'.map Field.bareAll := by
    rw [funext Field.bareAll_eq]
    exact hr
  refine agree_name.bind fun n n' hn => (signature_agree hi).bind fun sig sig' hsig => ?_
  simp only [Prod.map, Prod.mk.injEq] at hsig
  refine (agree_spanFrom _ _).bind fun _ _ _ => ?_
  refine (agree_makeExpr (by simp [hsig, bareSpan])).bind fun t t' ht => ?_
  refine (agree_isAt _).same fun _ => ?_
  refine Agree.join (block_agree hi).some (agree_pure rfl) fun body body' hbody => ?_
  refine (agree_spanFrom _ _).bind fun _ _ _ => agree_makeDecl ?_
  simp [hreceiver, hn, ht, hbody]

theorem decl_agree : Agree k Decl.bare (decl inner) (decl inner') :=
  (agree_isAt _).same fun _ => .ite (funcDecl_agree hi) (groupDecl_agree hi)

end Productions

/-! ## Whole sources -/

theorem skipSemicolons_agree : Agree k id skipSemicolons skipSemicolons := by
  refine Agree.extend rfl fun _ _ _ => (agree_eats _).same fun _ => ?_
  exact .ite (agree_pure rfl) (agree_pure rfl)

theorem wholeExpr_agree : Agree k Expr.bare wholeExpr wholeExpr := by
  refine (expr_agree (inner_agree_self _)).bind fun x x' hx => ?_
  refine agree_get.bind fun c d hcd => ?_
  rw [show c.head.isLineEnd = d.head.isLineEnd from congrArg Prod.snd hcd]
  have hend : Agree k Expr.bare (do discard <| expect .eof; return x)
      (do discard <| expect .eof; return x') :=
    (agree_expect _).discard.bind fun _ _ _ => agree_pure hx
  exact .ite (agree_take.discard.bind fun _ _ _ => hend) hend

theorem wholeDecl_agree : Agree k Decl.bare wholeDecl wholeDecl := by
  refine (decl_agree (inner_agree_self _)).bind fun d d' hd => ?_
  refine agree_expectEnd.same fun _ => skipSemicolons_agree.same fun _ => ?_
  exact (agree_expect _).discard.bind fun _ _ _ => agree_pure hd

theorem wholeStmt_agree : Agree k Stmt.bare wholeStmt wholeStmt := by
  refine (stmt_agree (inner_agree_self _)).bind fun s s' hs => ?_
  refine agree_expectEnd.same fun _ => skipSemicolons_agree.same fun _ => ?_
  exact (agree_expect _).discard.bind fun _ _ _ => agree_pure hs

end Grammar

open Grammar

variable {α : Type}

/-! ## Readings -/

/-- The lexemes of two sources look the same: they differ in their offsets only. -/
def SameTokens (a b : String) : Prop :=
  (tokenize a).map sight = (tokenize b).map sight

instance (a b : String) : Decidable (SameTokens a b) :=
  inferInstanceAs (Decidable (_ = _))

/--
Two readings come to the same: trees that are the same up to their places and in
English, or one complaint of the reader in the same words.
-/
inductive SameReading (bare : α → α) (english : α → String) :
    Except Failure (Fragment α) → Except Failure (Fragment α) → Prop where
  | ok {f g : Fragment α} (htree : bare f.root = bare g.root)
    (henglish : english f.root = english g.root) : SameReading bare english (.ok f) (.ok g)
  | error {f g : Failure} {span span' : Span} {message : String}
    (hf : f.diagnostics = [⟨.parsing, span, message⟩])
    (hg : g.diagnostics = [⟨.parsing, span', message⟩]) :
    SameReading bare english (.error f) (.error g)

/-- Illegal lexemes show in the tokens, so sources with the same tokens have flaws together. -/
theorem SameTokens.lexicalDiagnostics_eq_nil {a b : String} (h : SameTokens a b)
    (ha : lexicalDiagnostics (tokenize a) = []) : lexicalDiagnostics (tokenize b) = [] := by
  have hlegal : ∀ {l l' : Lexeme}, sight l = sight l' → l.diagnostic? = none →
      l'.diagnostic? = none := by
    intro l l' hsight hl
    have htoken : l.token = l'.token := congrArg Prod.fst hsight
    unfold Lexeme.diagnostic? at hl ⊢
    rw [← htoken]
    split at hl
    · cases hl
    · rfl
  rw [lexicalDiagnostics, List.filterMap_eq_nil_iff] at ha ⊢
  intro l' hl'
  have hmem : sight l' ∈ (tokenize a).map sight := h ▸ List.mem_map_of_mem hl'
  obtain ⟨l, hl, hsight⟩ := List.mem_map.mp hmem
  exact hlegal hsight (ha l hl)

/-- Readers that agree read sources with the same tokens alike. -/
theorem SameTokens.read {p : Parser α} {bare : α → α} {english : α → String}
    (hp : Agree 0 bare p p) (henglish : ∀ x, english (bare x) = english x) {a b : String}
    (h : SameTokens a b) (ha : lexicalDiagnostics (tokenize a) = []) :
    SameReading bare english (Fragment.read p a) (Fragment.read p b) := by
  have hb := h.lexicalDiagnostics_eq_nil ha
  have hrun := hp (Cursor.start (tokenize a) a.utf8ByteSize)
    (Cursor.start (tokenize b) b.utf8ByteSize) ⟨h, rfl, rfl⟩
  unfold Fragment.read
  simp only [ha, hb]
  generalize p (Cursor.start (tokenize a) a.utf8ByteSize) = r at hrun
  generalize p (Cursor.start (tokenize b) b.utf8ByteSize) = s at hrun
  cases hrun with
  | ok hview _ =>
      refine .ok hview ?_
      rw [← henglish, hview, henglish]
  | error hmessage => exact .error rfl (by rw [hmessage]; rfl)
  | deep hk _ => exact (Nat.lt_irrefl 0 hk).elim

theorem SameReading.map {bare : α → α} {english : α → String}
    {r s : Except Failure (Fragment α)} (h : SameReading bare english r s) :
    (r.map (english ·.root)).toOption = (s.map (english ·.root)).toOption := by
  cases h with
  | ok _ henglish => simp [Except.map, Except.toOption, henglish]
  | error _ _ => rfl

/-- Only a source without flaws is accepted. -/
theorem lexicalDiagnostics_of_read {p : Parser α} {src : String} {f : Fragment α}
    (h : Fragment.read p src = .ok f) : lexicalDiagnostics (tokenize src) = [] := by
  unfold Fragment.read at h
  dsimp only at h
  split at h
  · split at h
    · exact List.isEmpty_iff.mp ‹_›
    · cases h
  · cases h

/-- An explanation comes from one of the categories that were tried. -/
theorem exists_category_of_explainFrom {src english : String} {failed : List Attempt}
    {categories : List Category} (h : explainFrom src failed categories = .ok english) :
    ∃ category ∈ categories, category.explain src = .ok english := by
  induction categories generalizing failed with
  | nil => cases h
  | cons category categories ih =>
      rw [explainFrom] at h
      split at h
      · rename_i hcategory
        exact ⟨category, List.mem_cons_self, hcategory.trans (by rw [Except.ok.inj h])⟩
      · obtain ⟨other, hmem, hother⟩ := ih h
        exact ⟨other, List.mem_cons_of_mem _ hmem, hother⟩

/-- What is explained has been accepted in one of the three ways. -/
theorem accepted_of_explain {src english : String} (h : explain src = .ok english) :
    (∃ f, parseExpr src = .ok f) ∨ (∃ f, parseDecl src = .ok f) ∨ ∃ f, parseStmt src = .ok f := by
  have hread : ∀ {β : Type} {r : Except Failure (Fragment β)} {say : β → String},
      r.map (say ·.root) = .ok english → ∃ f, r = .ok f := by
    intro β r say hr
    cases r with
    | ok f => exact ⟨f, rfl⟩
    | error _ => cases hr
  obtain ⟨category, -, hcategory⟩ := exists_category_of_explainFrom h
  cases category with
  | expression => exact .inl (hread hcategory)
  | declaration => exact .inr (.inl (hread hcategory))
  | statement => exact .inr (.inr (hread hcategory))

/-- The first category that works is the same one for both, and so is what it says. -/
theorem toOption_explainFrom {a b : String} (categories : List Category)
    (h : ∀ category : Category,
      (category.explain a).toOption = (category.explain b).toOption)
    (failed failed' : List Attempt) :
    (explainFrom a failed categories).toOption = (explainFrom b failed' categories).toOption := by
  induction categories generalizing failed failed' with
  | nil => rfl
  | cons category categories ih =>
      have hcategory := h category
      unfold explainFrom
      cases ha : category.explain a <;> cases hb : category.explain b <;>
        simp [ha, hb, Except.toOption] at hcategory
      · exact ih _ _
      · simp [hcategory]

/--
**Layout does not matter.** Two sources whose tokens are the same, and legal, are read
alike, as an expression, as a declaration and as a statement, and they are explained
by the same text or not at all.
-/
theorem readings_of_sameTokens (a b : String) (ha : lexicalDiagnostics (tokenize a) = [])
    (h : SameTokens a b) :
    SameReading Expr.bare Expr.english (parseExpr a) (parseExpr b) ∧
    SameReading Decl.bare Decl.english (parseDecl a) (parseDecl b) ∧
    SameReading Stmt.bare Stmt.english (parseStmt a) (parseStmt b) ∧
    ∀ text, explain a = .ok text ↔ explain b = .ok text := by
  have hexpr := h.read wholeExpr_agree Expr.english_bare ha
  have hdecl := h.read wholeDecl_agree Decl.english_bare ha
  have hstmt := h.read wholeStmt_agree Stmt.english_bare ha
  refine ⟨hexpr, hdecl, hstmt, fun text => ?_⟩
  have hsame : (explain a).toOption = (explain b).toOption := by
    refine toOption_explainFrom _ (fun category => ?_) [] []
    cases category with
    | expression => exact hexpr.map
    | declaration => exact hdecl.map
    | statement => exact hstmt.map
  have htext : ∀ src : String, explain src = .ok text ↔ (explain src).toOption = some text := by
    intro src
    cases explain src <;> simp [Except.toOption]
  rw [htext, htext, hsame]

/-- A statement on two lines, and the same one spread out on one line with a remark. -/
theorem readings_of_sameTokens_define :
    lexicalDiagnostics (tokenize "x:=f(1,\n2)") = [] ∧
    SameTokens "x:=f(1,\n2)" "x := f ( 1, 2 ) // two" ∧
    SameReading Stmt.bare Stmt.english (parseStmt "x:=f(1,\n2)")
      (parseStmt "x := f ( 1, 2 ) // two") := by
  have hlegal : lexicalDiagnostics (tokenize "x:=f(1,\n2)") = [] := by decide +kernel
  have hsame : SameTokens "x:=f(1,\n2)" "x := f ( 1, 2 ) // two" := by decide +kernel
  exact ⟨hlegal, hsame, (readings_of_sameTokens _ _ hlegal hsame).2.2.1⟩

end GoGloss
