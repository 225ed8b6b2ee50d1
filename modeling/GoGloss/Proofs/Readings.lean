import GoGloss.Explanation
import GoGloss.Proofs.Agreement

/-!
# Readings of one source

A source is tried as an expression, as a declaration and as a statement, and some
sources can be read in more than one of these ways. A statement may consist of an
expression or hold a declaration; it is then read one level further in, but from
the same tokens, so both readings say the same. The exception are fragments that
start with `func`, which a method declaration and a conversion to a function type
have in common: `func (T) f()` is both.
-/

namespace GoGloss

/-- The operand that an expression starts with. -/
def Expr.first : Expr → Expr
  | .binary _ l _ _ _ => l.first
  | .selector _ x _ | .index _ x _ | .indexList _ x _ | .slice _ x _ _ _ _
  | .typeAssert _ x _ | .call _ x _ _ | .composite _ (some x) _ _ _ => x.first
  | x => x

/-- Whether a declaration is that of a method. -/
def Decl.isMethod : Decl → Bool
  | .func _ _ (some _) .. => true
  | _ => false

namespace Grammar

variable {α γ : Type} {k : Nat} {view : α → γ} {p q : Parser α} {c d : Cursor}

/-- What a reader does at some depth bounds what one does that starts deeper. -/
theorem Agree.yields {b : α} {d' : Cursor} (h : Agree k view p q) (hcd : c.Alike k d)
    (hq : q d = .ok b d') : Yields p c fun a c' => view a = view b ∧ c'.Alike k d' := by
  intro a c' hp
  have hrun := h c d hcd
  rw [hp, hq] at hrun
  cases hrun with
  | ok hview hcursor => exact ⟨hview, hcursor⟩

/-- A list ends with its first item where no comma follows that. -/
theorem yields_commaList_once {item : Parser α} {post : List α → Cursor → Prop}
    (h : Yields item c fun a c' => c'.head.token ≠ .mark .comma ∧ post [a] c') :
    Yields (commaList item) c post := by
  refine yields_collect (I := fun items c' => items = [] ∧ c' = c) ⟨rfl, rfl⟩ ?_
  rintro items c' ⟨rfl, rfl⟩
  simp only [commaRound, yields_bind]
  refine h.mono fun a c₁ ha => ?_
  simp [ha.1, ha.2, Round.goesOn, Round.items]

/-! ## What an expression starts with -/

/-- Whether an expression or a type may start with a token. -/
def startsExpr : Token → Bool
  | .name _ | .literal .. | .mark .lparen | .mark .lbrack | .mark .star | .mark .arrow
  | .keyword .func_ | .keyword .struct_ | .keyword .interface_ | .keyword .map_
  | .keyword .chan_ => true
  | t => (UnaryOp.ofToken? t).isSome

theorem startsExpr_of_unaryOp {t : Token} {op : UnaryOp} (h : UnaryOp.ofToken? t = some op) :
    startsExpr t := by
  unfold startsExpr
  split <;> simp_all

theorem typeHere?_starts (inner : Inner) (c : Cursor) :
    Yields (typeHere? inner) c fun t _ => t.isSome → startsExpr c.head.token := by
  simp only [typeHere?, yields_bind, yields_peek]
  split <;> simp_all [startsExpr]

theorem type?_starts (n : Nat) (c : Cursor) :
    Yields (type? (inner n)) c fun t _ => t.isSome → startsExpr c.head.token := by
  cases n with
  | zero => simp [type?, inner, Inner.none]
  | succ n =>
      rw [type?, yields_nested]
      exact fun _ => typeHere?_starts (inner n) (c.withDepth (c.depth + 1))

theorem operand_starts (n : Nat) (c : Cursor) :
    Yields (operand (inner n)) c fun _ _ => startsExpr c.head.token := by
  simp only [operand, yields_bind, yields_peek]
  split
  · simp_all [startsExpr]
  · simp_all [startsExpr]
  · simp_all [startsExpr]
  · simp_all [startsExpr]
  · rw [yields_bind]
    refine (type?_starts n c).mono fun t c₁ ht => ?_
    cases t with
    | none => simp
    | some t => simpa using ht rfl

theorem unary_starts (n : Nat) (c : Cursor) :
    Yields (unary (inner n)) c fun _ _ => startsExpr c.head.token := by
  simp only [unary, yields_bind, yields_peek]
  split
  · simp_all [startsExpr]
  · simp_all [startsExpr]
  · split <;> rename_i hop
    · simp [startsExpr_of_unaryOp hop]
    · simp only [primary, yields_bind, yields_here]
      exact (operand_starts n c).mono fun _ _ hstarts _ _ _ => hstarts

theorem expr_starts (n : Nat) (c : Cursor) :
    Yields (expr (inner n)) c fun _ _ => startsExpr c.head.token := by
  cases n with
  | zero => simp [expr, inner, Inner.none]
  | succ n =>
      simp only [expr, inner, Inner.over, yields_nested, binary, yields_bind, yields_here]
      exact fun _ => (unary_starts n _).mono fun _ _ hstarts _ _ _ => hstarts

/-! ## Runs over a whole source -/

/-- The cursor at the start of a source. -/
def Cursor.first (src : String) : Cursor :=
  Cursor.start (tokenize src) src.utf8ByteSize

/-- A source that is an expression ends where the expression does. -/
theorem wholeExpr_run (c : Cursor) : Yields wholeExpr c fun x _ =>
    ∃ c', expr (inner maxDepth) c = .ok x c' ∧
      (c'.head.token = .mark .semicolon ∨ c'.head.token = .eof) := by
  simp only [wholeExpr, yields_bind]
  intro x c' hrun
  simp
  refine ⟨fun hline _ => ⟨c', hrun, .inl ?_⟩, fun _ hend => ⟨c', hrun, .inr hend⟩⟩
  simp [Lexeme.isLineEnd] at hline
  exact hline.1

theorem wholeDecl_run (c : Cursor) : Yields wholeDecl c fun d _ =>
    ∃ c', decl (inner maxDepth) c = .ok d c' := by
  simp only [wholeDecl, yields_bind, yields_pure]
  intro d c' hrun _ _ _ _ _ _ _ _ _
  exact ⟨c', hrun⟩

theorem wholeStmt_of_stmt {good : Stmt → Prop}
    (h : Yields (stmt (inner maxDepth)) c fun s _ => good s) :
    Yields wholeStmt c fun s _ => good s := by
  simp only [wholeStmt, yields_bind, yields_pure]
  exact h.mono fun s _ hs _ _ _ _ _ _ _ _ _ => hs

theorem Cursor.alike_deeper (c : Cursor) : (c.withDepth (c.depth + 1)).Alike 1 c :=
  ⟨rfl, rfl, rfl⟩

/-! ## Statements that hold an expression or a declaration -/

/-- What starts like an expression is a simple statement. -/
theorem yields_stmtHere_simple {inner : Inner} {post : Stmt → Cursor → Prop}
    (hc : startsExpr c.head.token) (h : Yields (simpleOrLabeled inner) c post) :
    Yields (stmtHere inner) c post := by
  simp only [stmtHere, yields_bind, yields_peek]
  split <;> rename_i ht
  iterate 14 simp [ht, startsExpr, UnaryOp.ofToken?] at hc
  split <;> rename_i hjump
  · unfold Jump.ofToken? at hjump
    split at hjump <;> simp_all [startsExpr, UnaryOp.ofToken?]
  · rw [yields_ite]
    exact ⟨fun _ => yields_failExpected, fun _ => h⟩

/--
A statement that can be read as an expression `x` up to its end consists of it.
The statement's reader stands one level deeper, and it sees the same tokens.
-/
theorem stmt_of_expr {x : Expr} {c' : Cursor} (hx : expr (inner maxDepth) c = .ok x c')
    (hend : c'.head.token = .mark .semicolon ∨ c'.head.token = .eof) :
    Yields (stmt (inner maxDepth)) c fun s _ => s.english = x.english := by
  have hagree : Agree 1 Expr.bare (expr (inner 255)) (expr (inner maxDepth)) :=
    expr_agree (inner_agree Nat.one_pos 255 1)
  change Yields (nested (stmtHere (inner 255))) c _
  rw [yields_nested]
  intro _
  have hstarts : startsExpr c.head.token := expr_starts _ _ x c' hx
  refine yields_stmtHere_simple hstarts ?_
  simp only [simpleOrLabeled, yields_bind, yields_here]
  refine yields_commaList_once ((hagree.yields c.alike_deeper hx).mono fun x' c₁ hx' => ?_)
  obtain ⟨hbare, halike⟩ := hx'
  have henglish : ∀ span, (Stmt.expr span x').english = x.english := by
    intro span
    change x'.english = x.english
    rw [← x'.english_bare, hbare, x.english_bare]
  rw [← halike.token_head] at hend
  rcases hend with hend | hend <;>
    simp [hend, afterExprs, AssignOp.ofToken?, oneExpr, afterExpr, StepOp.ofToken?, henglish]

theorem groupDecl_starts (inner : Inner) (c : Cursor) :
    Yields (groupDecl inner) c fun _ _ =>
      ∃ word : DeclWord, c.head.token = .keyword word.keyword := by
  simp only [groupDecl, yields_bind, yields_here, yields_peek]
  split <;> rename_i hword
  · simp
  · rename_i word
    have htoken : c.head.token = .keyword word.keyword := by
      unfold DeclWord.ofToken? at hword
      split at hword <;> cases hword <;> simpa [DeclWord.keyword]
    intro _ _ _
    exact ⟨word, htoken⟩

/-- What does not start with `func` and is a declaration is one of the other kinds. -/
theorem groupDecl_of_decl {inner : Inner} {c : Cursor} (hfunc : c.head.token ≠ .keyword .func_) :
    Yields (decl inner) c fun d c' => groupDecl inner c = .ok d c' := by
  simp [decl, hfunc]
  exact fun _ _ h => h

/-- A statement that can be read as a declaration without `func` holds it. -/
theorem stmt_of_groupDecl {d : Decl} {c' : Cursor} (hd : groupDecl (inner maxDepth) c = .ok d c') :
    Yields (stmt (inner maxDepth)) c fun s _ => s.english = d.english := by
  obtain ⟨word, hword⟩ := groupDecl_starts _ _ d c' hd
  have hagree : Agree 1 Decl.bare (groupDecl (inner 255)) (groupDecl (inner maxDepth)) :=
    groupDecl_agree (inner_agree Nat.one_pos 255 1)
  have hdecl : Yields (declStmt (inner 255)) (c.withDepth (c.depth + 1)) fun s _ =>
      s.english = d.english := by
    simp only [declStmt, yields_bind, yields_here]
    refine (hagree.yields c.alike_deeper hd).mono fun d' c₁ hd' => ?_
    simp only [yields_spanFrom, yields_makeStmt]
    change d'.english = d.english
    rw [← d'.english_bare, hd'.1, d.english_bare]
  change Yields (nested (stmtHere (inner 255))) c _
  rw [yields_nested]
  intro _
  simp only [stmtHere, yields_bind, yields_peek, Cursor.withDepth_head, hword]
  cases word with
  | import_ => simp [DeclWord.keyword, Jump.ofToken?, startsNoStmt]
  | const_ | type_ | var_ => exact hdecl

theorem Cursor.first_token (src : String) : (Cursor.first src).head.token =
    ((tokenize src).head?.map Lexeme.token).getD .eof := by
  unfold Cursor.first Cursor.start Cursor.head
  cases tokenize src <;> rfl

/-! ## A method declaration as an expression -/

theorem Cursor.advance_head_token (c : Cursor) : c.advance.head.token = c.second := by
  unfold Cursor.advance Cursor.head Cursor.second
  match c.rest with
  | [] | [_] | _ :: _ :: _ => rfl

section Rounds

variable (inner : Inner) (x : Expr) (start : Nat) (c : Cursor)

theorem selectorOrAssertion_first :
    Yields (selectorOrAssertion inner x start) c fun y _ => y.first = x.first := by
  simp only [selectorOrAssertion, yields_bind, yields_discard, yields_take, yields_peek]
  split <;> simp [Expr.first]

theorem subscripted_first :
    Yields (subscripted inner x start) c fun y _ => y.first = x.first := by
  simp only [subscripted, yields_bind, yields_discard, yields_take, yields_bracketed]
  intro sub c₁ _
  simp only [yields_expect, yields_spanFrom]
  intro _
  split <;> simp [Expr.first]

theorem postfixRound_first :
    Yields (postfixRound inner start x) c fun y _ => (y.getD x).first = x.first := by
  simp only [postfixRound, yields_bind, yields_peek]
  split
  · simp
    exact fun _ => selectorOrAssertion_first inner x start _
  · simp
    exact fun _ => subscripted_first inner x start _
  · simp [call, Expr.first]
  · simp [literalValue, Expr.first]
  · simp

theorem binaryRound_first (least : Nat) :
    Yields (binaryRound inner least start x) c fun y _ => (y.getD x).first = x.first := by
  simp only [binaryRound, yields_bind, yields_peek]
  split <;> simp [Expr.first]

end Rounds

/-- What starts with `func` starts with a function type or a function literal. -/
theorem expr_first {inner : Inner} {c : Cursor} {P : Expr → Prop}
    (hc : c.head.token = .keyword .func_)
    (h : Yields (funcTypeOrLit inner) (c.withDepth (c.depth + 1)) fun x _ => P x.first) :
    Yields (expr (Inner.over inner)) c fun x _ => P x.first := by
  simp only [expr, Inner.over, yields_nested, binary, unary, primary, operand, yields_bind,
    yields_here, yields_peek, Cursor.withDepth_head, hc, UnaryOp.ofToken?]
  refine fun _ => h.mono fun x c₁ hx => ?_
  refine (yields_extend (I := fun (x : Expr) _ => P x.first) hx fun y c₂ hy => ?_).mono
    fun y c₂ hy => ?_
  · exact (postfixRound_first inner y _ c₂).mono fun z _ hz => hz ▸ hy
  · refine yields_extend (I := fun (x : Expr) _ => P x.first) hy fun z c₃ hz => ?_
    exact (binaryRound_first inner z _ c₃ 1).mono fun w _ hw => hw ▸ hz

/-- A name in front of a parenthesis is a type by itself. -/
theorem typeName_of_name {inner : Inner} {c : Cursor} {text : String}
    (hc : c.head.token = .name text) (hnext : c.second = .mark .lparen) :
    Yields (typeName inner) c fun t c' =>
      t = .ident ⟨text, c.head.span⟩ ∧ c'.head.token = .mark .lparen := by
  rw [← Cursor.advance_head_token] at hnext
  simp [typeName, yields_name, hc, hnext, instantiated]

/-- After the parameters of a function type, such a name is its only result. -/
theorem results_of_name {n : Nat} {c : Cursor} {text : String} (hc : c.head.token = .name text)
    (hnext : c.second = .mark .lparen) :
    Yields (results (inner (n + 1))) c fun fields c' => c'.head.token = .mark .lparen ∧
      fields.map Field.bare = [⟨default, [], .ident ⟨text, default⟩, none⟩] := by
  simp only [results, yields_bind, yields_isAt, yields_here, yields_ite, type?, inner, Inner.over,
    yields_nested, typeHere?, yields_peek, Cursor.withDepth_head, hc, yields_map]
  refine ⟨by simp, fun _ _ => (typeName_of_name (c := c.withDepth (c.depth + 1)) hc hnext).mono
    fun t c₁ ht => ?_⟩
  simp [ht.1, ht.2, Name.bare]

/--
What a method declaration starts with, read as an expression: the receiver is
taken for the parameters of a function type, and the method's name for its result.
-/
theorem expr_of_method {c : Cursor} {receiver : List Field} {c' : Cursor} {text : String}
    (hfunc : c.head.token = .keyword .func_)
    (hreceiver : parameters (inner maxDepth) c.advance = .ok receiver c')
    (hname : c'.head.token = .name text) (hnext : c'.second = .mark .lparen) :
    Yields (expr (inner maxDepth)) c fun x _ => x.first.bare =
      .funcType default (some default) (receiver.map Field.bare)
        [⟨default, [], .ident ⟨text, default⟩, none⟩] := by
  have hagree : Agree 1 (List.map Field.bare) (parameters (inner 255))
      (parameters (inner maxDepth)) := parameters_agree (inner_agree Nat.one_pos 255 1)
  change Yields (expr (Inner.over (inner 255))) c _
  refine expr_first (P := fun y => y.bare = _) hfunc ?_
  simp only [funcTypeOrLit, funcType, signature, yields_bind, yields_here, yields_expect,
    Cursor.withDepth_head]
  refine fun _ => (hagree.yields c.alike_deeper.advance hreceiver).mono fun params c₁ hparams => ?_
  obtain ⟨hparams, halike⟩ := hparams
  refine (results_of_name (halike.token_head.trans hname) (halike.second.trans hnext)).mono
    fun results c₂ hresults => ?_
  simp [hresults.1, Expr.first, hparams, bareSpan]
  simpa using hresults.2

/-- After `func` an expression has a parenthesis. -/
theorem expr_lparen {n : Nat} {c : Cursor} (hfunc : c.head.token = .keyword .func_) :
    Yields (expr (inner (n + 1))) c fun _ _ => c.second = .mark .lparen := by
  by_cases hparen : c.second = .mark .lparen
  · simp [hparen]
  · have hadvance : (c.withDepth (c.depth + 1)).advance.head.token ≠ .mark .lparen := by
      rw [Cursor.advance_head_token]
      exact hparen
    simp [expr, inner, Inner.over, binary, unary, primary, operand, hfunc, UnaryOp.ofToken?,
      funcTypeOrLit, funcType, signature, parameters, hadvance]

/--
The declaration is that of a method: from `c` on there are `func`, the receiver, the
method's name, and a parenthesis.
-/
def IsMethodFrom (inner : Inner) (c : Cursor) (d : Decl) : Prop :=
  ∃ receiver c' text, parameters inner c.advance = .ok receiver c' ∧
    c'.head.token = .name text ∧ c'.second = .mark .lparen ∧
    ∃ span pos namePos type body, d = .func span pos (some receiver) ⟨text, namePos⟩ type body

theorem decl_of_func {inner : Inner} {c : Cursor} (hfunc : c.head.token = .keyword .func_)
    (hparen : c.second = .mark .lparen) :
    Yields (decl inner) c fun d _ => IsMethodFrom inner c d := by
  rw [← Cursor.advance_head_token] at hparen
  simp [decl, hfunc, funcDecl, hparen, yields_name]
  intro receiver c' hreceiver text hname
  by_cases hnext : c'.second = .mark .lparen
  · have hmethod : ∀ span pos namePos type body,
        IsMethodFrom inner c (.func span pos (some receiver) ⟨text, namePos⟩ type body) :=
      fun _ _ _ _ _ => ⟨receiver, c', text, hreceiver, hname, hnext, _, _, _, _, _, rfl⟩
    simp [hmethod]
  · have hadvance : c'.advance.head.token ≠ .mark .lparen := by
      rw [Cursor.advance_head_token]
      exact hnext
    simp [signature, parameters, hadvance]

end Grammar

open Grammar

/--
**The cascade agrees with the statement's reader.** A source that is a statement
and does not start with `func` is explained as that statement, whichever reading
of it works first.
-/
theorem explain_of_parseStmt (src : String) (f : Fragment Stmt) (hf : parseStmt src = .ok f)
    (hfunc : (tokenize src).head?.map Lexeme.token ≠ some (.keyword .func_)) :
    explain src = .ok f.root.english := by
  have hexpr : ∀ g, parseExpr src = .ok g → g.root.english = f.root.english := by
    intro g hg
    obtain ⟨_, c', hx, hend⟩ := (wholeExpr_run _).read hg
    obtain ⟨_, henglish⟩ := (wholeStmt_of_stmt (stmt_of_expr hx hend)).read hf
    exact henglish.symm
  have hdecl : ∀ g, parseDecl src = .ok g → g.root.english = f.root.english := by
    intro g hg
    obtain ⟨_, c', hd⟩ := (wholeDecl_run _).read hg
    have htoken : (Cursor.first src).head.token ≠ .keyword .func_ := by
      rw [Cursor.first_token]
      cases h : (tokenize src).head? <;> simp_all
    have hgroup := groupDecl_of_decl htoken _ _ hd
    obtain ⟨_, henglish⟩ := (wholeStmt_of_stmt (stmt_of_groupDecl hgroup)).read hf
    exact henglish.symm
  simp only [explain, Category.order, explainFrom, Category.explain]
  cases hg : parseExpr src with
  | ok g => simp [Except.map, hexpr g hg]
  | error e =>
      cases hg : parseDecl src with
      | ok g => simp [Except.map, hdecl g hg]
      | error e => simp [Except.map, hf]

/-- A declaration, which is explained as such, and is a statement as well. -/
theorem explain_of_parseStmt_var :
    ∃ f, parseStmt "var x, y = 1, 2" = .ok f ∧
      explain "var x, y = 1, 2" = .ok f.root.english := by
  generalize hsrc : "var x, y = 1, 2" = src
  have hok : (parseStmt src).toOption.isSome := by
    subst hsrc
    decide +kernel
  have hfunc : (tokenize src).head?.map Lexeme.token ≠ some (.keyword .func_) := by
    subst hsrc
    decide +kernel
  cases hf : parseStmt src with
  | error e => simp [hf, Except.toOption] at hok
  | ok f => exact ⟨f, rfl, explain_of_parseStmt src f hf hfunc⟩

/--
**Expressions and declarations overlap in method declarations only.** A source that
is both is a method declaration. As an expression it starts with a function type
that has the receiver for its parameters and the method's name for its result; the
method's parameters are then the arguments of a conversion. Any other declaration
is explained as such, whichever of the two readings is tried first.
-/
theorem parseExpr_and_parseDecl (src : String) (g : Fragment Decl) (hg : parseDecl src = .ok g) :
    (∀ f, parseExpr src = .ok f → ∃ span pos receiver name type body,
      g.root = .func span pos (some receiver) name type body ∧
      f.root.first.bare = .funcType default (some default) (receiver.map Field.bare)
        [⟨default, [], .ident name.bare, none⟩]) ∧
    (g.root.isMethod = false →
      explain src = .ok g.root.english ∧
      explainFrom src [] [.declaration, .expression, .statement] = .ok g.root.english) := by
  have hboth : ∀ f, parseExpr src = .ok f → ∃ span pos receiver name type body,
      g.root = .func span pos (some receiver) name type body ∧
      f.root.first.bare = .funcType default (some default) (receiver.map Field.bare)
        [⟨default, [], .ident name.bare, none⟩] := by
    intro f hf
    obtain ⟨_, _, hx, _⟩ := (wholeExpr_run _).read hf
    obtain ⟨_, _, hd⟩ := (wholeDecl_run _).read hg
    by_cases hfunc : (Cursor.first src).head.token = .keyword .func_
    · obtain ⟨receiver, c', text, hreceiver, hname, hnext, span, pos, namePos, t, body, hroot⟩ :=
        decl_of_func hfunc (expr_lparen hfunc _ _ hx) _ _ hd
      exact ⟨span, pos, receiver, _, t, body, hroot,
        expr_of_method hfunc hreceiver hname hnext _ _ hx⟩
    · obtain ⟨word, hword⟩ := groupDecl_starts _ _ _ _ (groupDecl_of_decl hfunc _ _ hd)
      have hstarts : startsExpr (Cursor.first src).head.token := expr_starts _ _ _ _ hx
      rw [hword] at hstarts
      cases word <;> cases hstarts
  refine ⟨hboth, fun hmethod => ?_⟩
  have hexpr : ∀ f, parseExpr src ≠ .ok f := by
    intro f hf
    obtain ⟨span, pos, receiver, name, type, body, hroot, _⟩ := hboth f hf
    rw [hroot] at hmethod
    cases hmethod
  simp only [explain, Category.order, explainFrom, Category.explain, hg, Except.map]
  cases hf : parseExpr src with
  | ok f => exact absurd hf (hexpr f)
  | error e => simp

/-- A source that is a declaration and an expression, and is explained as the latter. -/
theorem explain_method_as_call :
    ((parseExpr "func (T) f()").toOption.map fun f => f.root.english) =
      some "function taking T and returning f()" ∧
    ((parseDecl "func (T) f()").toOption.map fun g => g.root.english) = some "function f" ∧
    (explain "func (T) f()").toOption = some "function taking T and returning f()" := by
  decide +kernel

/-- Both halves: a method that is also a call, and a declaration that is nothing else. -/
theorem parseExpr_and_parseDecl_method_var :
    (∃ f g, parseExpr "func (T) f()" = .ok f ∧ parseDecl "func (T) f()" = .ok g ∧
      g.root.isMethod ∧ ∃ params results,
        f.root.first.bare = .funcType default (some default) params results) ∧
    ∃ g, parseDecl "var x, y = 1, 2" = .ok g ∧ explain "var x, y = 1, 2" = .ok g.root.english := by
  constructor
  · generalize hsrc : "func (T) f()" = src
    have hok : (parseExpr src).toOption.isSome ∧ (parseDecl src).toOption.isSome := by
      subst hsrc
      decide +kernel
    cases hf : parseExpr src with
    | error e => simp [hf, Except.toOption] at hok
    | ok f =>
        cases hg : parseDecl src with
        | error e => simp [hg, Except.toOption] at hok
        | ok g =>
            obtain ⟨span, pos, receiver, name, type, body, hroot, hfirst⟩ :=
              (parseExpr_and_parseDecl src g hg).1 f hf
            exact ⟨f, g, rfl, rfl, by rw [hroot]; rfl, _, _, hfirst⟩
  · generalize hsrc : "var x, y = 1, 2" = src
    have hok : (parseDecl src).toOption.any fun g => !g.root.isMethod := by
      subst hsrc
      decide +kernel
    cases hg : parseDecl src with
    | error e => simp [hg, Except.toOption] at hok
    | ok g =>
        simp [hg, Except.toOption] at hok
        exact ⟨g, rfl, ((parseExpr_and_parseDecl src g hg).2 hok).1⟩

end GoGloss
