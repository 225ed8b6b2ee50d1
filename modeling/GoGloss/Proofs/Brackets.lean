import GoGloss.Proofs.Brackets.Balanced
import GoGloss.Proofs.Lossless
import GoGloss.Proofs.SameTokens

/-!
# Brackets come in pairs

Every production is balanced: what it takes has its brackets in pairs. Some lists may
stop early, at the end of the source or in front of a bracket that is not their own, and
an empty statement is read in front of a stray brace, but then the bracket that the list
is in is not closed and the source is refused.

So the brackets of an accepted source are balanced (`brackets_balanced`).
-/

-- What a production infers has as many steps as the production.
set_option synthInstance.maxSize 1000

namespace GoGloss

namespace Grammar

variable {α β : Type}

/-! ## Types -/

/-- The productions one level further in are balanced. -/
class Inner.Balances (inner : Inner) : Prop where
  binary : ∀ least, Grammar.Balances (inner.binary least)
  unary : Grammar.Balances inner.unary
  type? : Grammar.Balances inner.type?
  literalValue : ∀ t start, Grammar.Balances (inner.literalValue t start)
  stmt : Grammar.Balances inner.stmt
  ifStmt : Grammar.Balances inner.ifStmt

attribute [instance] Inner.Balances.binary Inner.Balances.unary Inner.Balances.type?
  Inner.Balances.literalValue Inner.Balances.stmt Inner.Balances.ifStmt

section Productions

variable {inner : Inner} [inner.Balances]

instance : Balances (expr inner) := by
  unfold expr
  infer_instance

instance : Balances (exprList inner) := by
  unfold exprList
  infer_instance

instance : Balances (operandUnder inner) := by
  unfold operandUnder
  infer_instance

instance : Balances (type? inner) := by
  unfold type?
  infer_instance

instance : Balances (type inner) := by
  refine .step fun t => ?_
  split <;> infer_instance

instance : Balances (stmt inner) := by
  unfold stmt
  infer_instance

instance : Balances (paramType inner) := by
  refine .step fun dots => ?_
  split <;> infer_instance

instance (start : Nat) (t : Expr) : Balances (instantiated inner start t) := by
  refine balances_eats ?_ inferInstance
  refine .step fun first => .step fun others => ?_
  refine .afterDiscard fun _ => .step fun span => ?_
  split <;> infer_instance

instance : Balances (typeName inner) := by
  unfold typeName
  infer_instance

instance : Balances (paramEntry inner) := by
  refine .step fun start => balances_peek fun t => ?_
  split
  · refine Balances.at (h := .step fun second => ?_)
    split <;> infer_instance
  · infer_instance

instance : Balances (parameters inner) := by
  have hlist : Shuts .rparen (do
      let entries ← commaListUntil .rparen (paramEntry inner)
      discard <| expect (.mark .rparen)
      match groupParams entries with
      | .error span => failAt span .mixedParameters
      | .ok fields =>
        (bareTypes entries).forM fun t => discard (makeExpr t)
        fields.mapM makeField) := by
    refine .step fun entries => .afterDiscard fun _ => ?_
    split <;> infer_instance
  unfold parameters
  infer_instance

instance : Balances (results inner) := by
  unfold results
  have : ∀ start : Nat, Balances (do
      match ← type? inner with
      | none => return []
      | some t => return [← makeField ⟨← spanFrom start, [], t, none⟩]) := by
    refine fun start => .step fun t => ?_
    split <;> infer_instance
  infer_instance

instance : Balances (signature inner) := by
  unfold signature
  infer_instance

instance : Balances (funcType inner) := by
  unfold funcType
  infer_instance

instance : Balances (arrayLength inner) := by
  refine balances_peek fun t => ?_
  split <;> infer_instance

instance : Balances (arrayType inner) := by
  unfold arrayType
  infer_instance

instance : Balances fieldNames := by
  refine balances_peek fun t => ?_
  split <;> infer_instance

instance : Balances (fieldDecl inner) := by
  unfold fieldDecl
  infer_instance

instance : Balances (structType inner) := by
  refine .step fun start => .step fun _ => ?_
  infer_instance

instance : Balances (typeTerm inner) := by
  refine .step fun start => .step fun tilde => ?_
  split <;> infer_instance

instance (start : Nat) (left : Expr) : Balances (unionRound inner start left) :=
  balances_isAt inferInstance (inferInstanceAs (Balances (pure _)))

instance : Balances (interfaceMethod inner) := by
  unfold interfaceMethod
  infer_instance

instance : Balances (interfaceUnion inner) := by
  unfold interfaceUnion
  infer_instance

instance : Balances (interfaceMember inner) := by
  refine .step fun t => .step fun second => ?_
  split <;> infer_instance

instance : Balances (interfaceType inner) := by
  refine .step fun start => .step fun _ => ?_
  infer_instance

instance : BalancesBehind (mapType inner) := by
  unfold mapType
  infer_instance

instance : Closes .rparen (parenType inner) := by
  unfold parenType
  infer_instance

instance : Balances (typeHere? inner) := by
  refine balances_peek fun t => ?_
  split <;> infer_instance

/-! ## Expressions -/

instance : Balances (stmtList inner) := by
  unfold stmtList
  infer_instance

instance : Balances (block inner) := by
  unfold block
  infer_instance

instance : Balances (funcTypeOrLit inner) := by
  unfold funcTypeOrLit
  infer_instance

instance : Balances (operand inner) := by
  refine balances_peek fun t => ?_
  split
  · infer_instance
  · infer_instance
  · infer_instance
  · infer_instance
  · refine Balances.at (h := .step fun t => ?_)
    split <;> infer_instance

instance (x : Expr) (start : Nat) : BalancesBehind (selectorOrAssertion inner x start) := by
  refine .step fun _ => balances_peek fun t => ?_
  split
  · infer_instance
  · refine Closes.at (h := .step fun _ => .step fun switched => ?_)
    dsimp only
    infer_instance
  · infer_instance

instance : Balances (sliceBound inner) := by
  refine balances_peek fun t => ?_
  split <;> infer_instance

instance : Balances (sliceBounds inner) := by
  unfold sliceBounds
  infer_instance

instance : Balances (subscript inner) := by
  have hrest : ∀ first : Option Expr, Balances
      (Body.subscriptFrom (moreUntil .rbrack (expr inner)) (sliceBounds inner) first) := by
    refine fun first => .step fun colon => ?_
    split
    · infer_instance
    · exact .step fun bounds => inferInstance
  unfold subscript
  infer_instance

instance (x : Expr) (start : Nat) : Closes .rbrack (subscripted inner x start) := by
  refine .step fun _ => .step fun sub => .after fun rbrack => ?_
  refine .step fun span => ?_
  split <;> infer_instance

instance : Balances (argRound inner) := by
  refine balances_peek fun t => ?_
  split
  · infer_instance
  · infer_instance
  · refine Balances.at (h := .step fun x => .step fun dots => ?_)
    split <;> infer_instance

instance (f : Expr) (start : Nat) : Closes .rparen (call inner f start) := by
  unfold call
  infer_instance

instance : Balances (elementValue inner) := by
  unfold elementValue
  infer_instance

instance : Balances (element inner) := by
  refine .step fun start => .step fun key =>
    .step fun colon => ?_
  split <;> infer_instance

instance (t : Option Expr) (start : Nat) : Balances (literalValue inner t start) := by
  unfold literalValue
  infer_instance

instance (start : Nat) (x : Expr) : Balances (postfixRound inner start x) := by
  refine balances_peek fun t => ?_
  split <;> infer_instance

instance : Balances (primary inner) := by
  unfold primary
  infer_instance

instance : BalancesBehind (receiveExpr inner) := by
  unfold receiveExpr
  infer_instance

instance : BalancesBehind (starExpr inner) := by
  unfold starExpr
  infer_instance

instance (op : UnaryOp) : BalancesBehind (unaryExpr inner op) := by
  unfold unaryExpr
  infer_instance

instance : Balances (unary inner) := by
  refine balances_peek fun t => ?_
  split
  · infer_instance
  · infer_instance
  · split
    · rename_i op hop
      have := neutral_of_ofToken (by decide) (fun _ => rfl) hop
      infer_instance
    · infer_instance

instance (least start : Nat) (left : Expr) : Balances (binaryRound inner least start left) := by
  refine balances_peek fun t => ?_
  split
  · infer_instance
  · rename_i op hop
    have := neutral_of_ofToken (by decide) (fun _ => rfl) hop
    split <;> infer_instance

instance (least : Nat) : Balances (binary inner least) := by
  unfold binary
  infer_instance

/-! ## Declarations -/

instance : Balances importName? := by
  refine balances_peek fun t => ?_
  split <;> infer_instance

instance : Balances importSpec := by
  refine .step fun n => .step fun path => ?_
  split <;> infer_instance

instance : Balances (initialValues inner) := by
  unfold initialValues
  infer_instance

instance : Balances (constSpec inner) := by
  refine .step fun names => balances_peek fun t => ?_
  split <;> infer_instance

instance : Balances (varSpec inner) := by
  unfold varSpec
  infer_instance

instance (word : DeclWord) : Balances (spec inner word) := by
  cases word <;> unfold spec <;> infer_instance

instance : Balances (groupDecl inner) := by
  refine .step fun start => balances_peek fun t => ?_
  split
  · infer_instance
  · rename_i word hword
    have := neutral_of_ofToken (by decide) (fun _ => rfl) hword
    refine BalancesBehind.at (h := .step fun wordPos => balances_eat ?_ ?_)
    · infer_instance
    · infer_instance

instance : Balances (funcDecl inner) := by
  unfold funcDecl
  infer_instance

instance : Balances (decl inner) := by
  unfold decl
  infer_instance

/-! ## Statements -/

instance (start : Nat) (x : Expr) : Balances (afterExpr inner start x) := by
  refine balances_peek fun t => ?_
  split
  · infer_instance
  · split
    · rename_i op hop
      have := neutral_of_ofToken (by decide) (fun _ => rfl) hop
      infer_instance
    · infer_instance

instance (xs : List Expr) : Stays (oneExpr xs) := by
  unfold oneExpr
  split <;> infer_instance

instance (start : Nat) (lhs : List Expr) : Balances (afterExprs inner start lhs) := by
  refine balances_peek fun t => ?_
  split
  · rename_i op hop
    have := neutral_of_ofToken (by decide) (fun _ => rfl) hop
    infer_instance
  · infer_instance

instance : Balances (simpleStmt inner) := by
  unfold simpleStmt
  infer_instance

instance : Balances (simpleOrLabeled inner) := by
  refine .step fun start => .step fun lhs => balances_peek fun t => ?_
  split <;> infer_instance

instance (part : HeaderPart) (s : Stmt) : Stays (headerExpr part s) := by
  unfold headerExpr
  split <;> infer_instance

instance : Balances (ifHeader inner) := by
  have hparts : Balances (Body.ifParts (simpleStmt inner)) :=
    .step fun _ => .join fun init => inferInstance
  refine .step fun brace => ?_
  split
  · infer_instance
  · refine .step fun header => ?_
    split
    split <;> infer_instance

instance : Balances (ifStmt inner) := by
  refine .step fun start => .step fun _ => ?_
  refine .step fun header => .step fun body => ?_
  refine .step fun hasElse => ?_
  dsimp only
  split
  · refine balances_peek fun t => ?_
    split <;> infer_instance
  · infer_instance

instance (vars : List Expr) (op : AssignOp) : Balances (rangeClause inner vars op) := by
  unfold rangeClause Body.rangeClause
  split <;> infer_instance

instance : Balances (forStart inner) := by
  refine .step fun start => .step fun lhs => balances_peek fun t => ?_
  split
  · infer_instance
  · rename_i op hop
    have := neutral_of_ofToken (by decide) (fun _ => rfl) hop
    refine BalancesBehind.at (h := .step fun opPos => balances_isAt ?_ ?_)
    · infer_instance
    · rw [Bool.and_false, if_neg Bool.false_ne_true]
      infer_instance

instance (first : Option Stmt) : Balances (forClauses inner first) := by
  unfold forClauses
  infer_instance

instance : Balances (forHeader inner) := by
  refine balances_peek fun t => ?_
  split
  · infer_instance
  · infer_instance
  · infer_instance
  · refine Balances.at (h := .step fun header => ?_)
    split <;> infer_instance

instance (post : Option Stmt) : Stays (checkPost post) := by
  unfold checkPost
  split <;> infer_instance

instance (s : Option Stmt) : Stays (loopCondition s) := by
  unfold loopCondition
  split <;> infer_instance

instance : Balances (forStmt inner) := by
  refine .step fun start => .step fun _ => ?_
  refine .step fun header => .step fun body => ?_
  split <;> infer_instance

instance : Balances (switchHeader inner) := by
  unfold switchHeader
  infer_instance

instance (types : Bool) : Balances (caseClause inner types) := by
  unfold caseClause
  infer_instance

instance : Balances (commClause inner) := by
  unfold commClause
  infer_instance

instance (clause : Parser Stmt) [Balances clause] : Balances (clauseBlock clause) := by
  have hround : Balances (Body.clauseRound clause) := by
    refine balances_peek fun t => ?_
    split <;> infer_instance
  unfold clauseBlock
  infer_instance

instance : Balances (switchStmt inner) := by
  refine .step fun start => .step fun _ => ?_
  refine .step fun header => ?_
  split
  refine .step fun body => ?_
  split <;> infer_instance

instance : BalancesBehind (selectStmt inner) := by
  unfold selectStmt
  infer_instance

instance (word : Keyword) : Balances (callAfter inner word) := by
  unfold callAfter
  infer_instance

instance : BalancesBehind (goStmt inner) := by
  unfold goStmt
  infer_instance

instance : BalancesBehind (deferStmt inner) := by
  unfold deferStmt
  infer_instance

instance : BalancesBehind (returnStmt inner) := by
  refine .skip fun start => .step fun pos => ?_
  refine .step fun t => ?_
  split <;> infer_instance

instance (kind : Jump) : Balances (jumpLabel kind) := by
  unfold jumpLabel
  split
  · infer_instance
  · refine balances_peek fun t => ?_
    split <;> infer_instance

instance : Balances emptyStmt := by
  unfold emptyStmt
  infer_instance

instance : Balances (stmtHere inner) := by
  refine balances_peek fun t => ?_
  split
  iterate 14 infer_instance
  · split
    · rename_i kind hkind
      have := neutral_of_ofToken (by decide) (fun _ => rfl) hkind
      infer_instance
    · infer_instance

instance : inner.over.Balances := by
  constructor <;> intros <;> unfold Inner.over <;> infer_instance

end Productions

/-! ## Whole sources -/

instance : Inner.none.Balances := by
  constructor <;> intros <;> unfold Inner.none <;> infer_instance

instance inner_balances (n : Nat) : (inner n).Balances := by
  induction n with
  | zero => unfold inner; infer_instance
  | succ n ih => unfold inner; infer_instance

instance : Balances (skipSemicolons : Parser Unit) := by
  unfold skipSemicolons
  infer_instance

/-- A reader stops at the end of the source, and all that it took is balanced. -/
def BalancesAll (p : Parser α) : Prop :=
  ∀ c, Yields p c fun _ _ => ∃ c' : Cursor, Level c.rest c'.rest ∧ c'.head.token = .eof

theorem BalancesAll.step {q : Parser β} {f : β → Parser α} [hq : Balances q]
    (hf : ∀ b, BalancesAll (f b)) : BalancesAll (q >>= f) := by
  refine fun c => yields_bind.mpr <| (hq.yields c).mono fun b c₁ hlevel => ?_
  refine (hf b c₁).mono fun _ _ ⟨c', hrest, heof⟩ => ?_
  exact ⟨c', hlevel.trans hrest, heof⟩

theorem balancesAll_eof (a : α) : BalancesAll (do discard <| expect .eof; return a) := by
  intro c
  simp only [yields_bind, yields_discard, yields_expect, yields_pure]
  exact fun heof => ⟨c, .refl _, heof⟩

theorem wholeExpr_balances : BalancesAll wholeExpr := by
  refine .step fun x c => ?_
  rw [yields_bind, yields_get]
  split
  · -- the end of a line is a semicolon
    rename_i hline
    have hsemi : c.head.token = .mark .semicolon := by
      simp only [Lexeme.isLineEnd, Bool.and_eq_true, decide_eq_true_eq] at hline
      exact hline.1
    rw [yields_bind, yields_discard, yields_take]
    refine (balancesAll_eof x c.advance).mono ?_
    rintro _ _ ⟨c', hlevel, heof⟩
    exact ⟨c', (level_advance (by rw [hsemi]; infer_instance)).trans hlevel, heof⟩
  · exact balancesAll_eof x c

theorem wholeDecl_balances : BalancesAll wholeDecl :=
  .step fun d => .step fun _ => .step fun _ =>
    balancesAll_eof d

theorem wholeStmt_balances : BalancesAll wholeStmt :=
  .step fun s => .step fun _ => .step fun _ =>
    balancesAll_eof s

/--
No lexeme stands for the end of the source, so all of them have been taken there: they are
legal, and their brackets are balanced.
-/
theorem BalancesAll.tokens {p : Parser α} (h : BalancesAll p) {src : String} {a : α} {c : Cursor}
    (hrun : p (Cursor.start (tokenize src) src.utf8ByteSize) = .ok a c) :
    (∀ l ∈ tokenize src, l.token.isLegal) ∧ Balanced (brackets (tokenize src)) := by
  obtain ⟨c', ⟨taken, htaken, hgot⟩, heof⟩ := h _ a c hrun
  replace htaken : tokenize src = taken ++ c'.rest := htaken
  have hrest : c'.rest = [] := by
    unfold Cursor.head at heof
    cases hc : c'.rest with
    | nil => rfl
    | cons l ls =>
        rw [hc] at heof htaken
        have hmem : l ∈ tokenize src := by rw [htaken]; simp
        exact absurd heof (ne_eof_of_mem_tokenize hmem)
  rwa [htaken, hrest, List.append_nil]

theorem BalancesAll.read {p : Parser α} (h : BalancesAll p) {src : String} {f : Fragment α}
    (hf : Fragment.read p src = .ok f) : Balanced (brackets (tokenize src)) := by
  have htokens : Yields p (Cursor.start (tokenize src) src.utf8ByteSize) fun _ _ =>
      Balanced (brackets (tokenize src)) := fun a c hrun => (h.tokens hrun).2
  obtain ⟨_, hbalanced⟩ := htokens.read hf
  exact hbalanced

end Grammar

open Grammar

/--
**The brackets of an accepted source are balanced,** in whatever way it was accepted. So a
source is not explained if its brackets are not.
-/
theorem brackets_balanced (src : String) :
    (∀ f, parseExpr src = .ok f → Balanced (brackets (tokenize src))) ∧
    (∀ f, parseDecl src = .ok f → Balanced (brackets (tokenize src))) ∧
    (∀ f, parseStmt src = .ok f → Balanced (brackets (tokenize src))) ∧
    (¬ Balanced (brackets (tokenize src)) → ∃ e, explain src = .error e) := by
  have hexpr : ∀ f, parseExpr src = .ok f → Balanced (brackets (tokenize src)) :=
    fun _ => wholeExpr_balances.read
  have hdecl : ∀ f, parseDecl src = .ok f → Balanced (brackets (tokenize src)) :=
    fun _ => wholeDecl_balances.read
  have hstmt : ∀ f, parseStmt src = .ok f → Balanced (brackets (tokenize src)) :=
    fun _ => wholeStmt_balances.read
  refine ⟨hexpr, hdecl, hstmt, fun hunbalanced => ?_⟩
  cases h : explain src with
  | error e => exact ⟨e, rfl⟩
  | ok english =>
      rcases accepted_of_explain h with ⟨f, hf⟩ | ⟨f, hf⟩ | ⟨f, hf⟩
      · exact absurd (hexpr f hf) hunbalanced
      · exact absurd (hdecl f hf) hunbalanced
      · exact absurd (hstmt f hf) hunbalanced

example : ¬ Balanced (brackets (tokenize "f(x[1)]")) := by decide +kernel

/-- A call in a loop, with all three kinds of brackets. -/
theorem brackets_balanced_loop :
    ∃ f, parseStmt "for i := range (xs) \x7b f(xs[i]) \x7d" = .ok f ∧
      Balanced (brackets (tokenize "for i := range (xs) \x7b f(xs[i]) \x7d")) := by
  generalize hsrc : "for i := range (xs) \x7b f(xs[i]) \x7d" = src
  have hok : (parseStmt src).toOption.isSome := by
    subst hsrc
    decide +kernel
  cases hf : parseStmt src with
  | error e => simp [hf, Except.toOption] at hok
  | ok f => exact ⟨f, rfl, (brackets_balanced src).2.2.1 f hf⟩

end GoGloss
