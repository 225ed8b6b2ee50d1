import GoGloss.Proofs.Replay.TypesAsOperands
import GoGloss.Proofs.SameTokens

/-!
# A type as the only parameter

A parameter need not have a name, so a type in parentheses is a parameter list with one
entry, and a list of results with one entry too. The entry is told by its first two
tokens, and there is one type that it does not fit: a name with brackets behind it. Such
a name is taken for that of the parameter and the brackets for the start of its type,
which is then missing: `func(T[int])` is refused, while `func(p.T[int])` is not.

The type is first read again from its own lexemes in parentheses, where the tree comes out
the same with all its places, and from there on from any others that look the same.
-/

namespace GoGloss.Grammar

variable {α γ : Type}

/-! ## The same tokens elsewhere -/

/-- A wording with another third letter is not that of the limit. -/
theorem append_ne_tooDeep {s t : String} (h : s.toList[2]? ≠ some 'c')
    (hs : 2 < s.toList.length) : s ++ t ≠ "exceeded max nesting depth" := by
  intro heq
  have hchars := congrArg (·.toList[2]?) heq
  simp only [String.toList_append, List.getElem?_append_left hs] at hchars
  exact h (hchars.trans (by simp))

/-- No other fault is worded like the limit. -/
theorem Fault.eq_tooDeep {f : Fault} (h : f.message = "exceeded max nesting depth") :
    f = .tooDeep := by
  cases f with
  | tooDeep => rfl
  | expected w l =>
      change "expected " ++ w.text ++ ", found " ++ foundText l = _ at h
      simp only [String.append_assoc] at h
      exact absurd h (append_ne_tooDeep (by simp) (by simp))
  | notACall w =>
      change "expression in " ++ w.text ++ " must be function call" = _ at h
      simp only [String.append_assoc] at h
      exact absurd h (append_ne_tooDeep (by simp) (by simp))
  | missingCondition w =>
      change "missing condition in " ++ w.text ++ " statement" = _ at h
      simp only [String.append_assoc] at h
      exact absurd h (append_ne_tooDeep (by simp) (by simp))
  | notAnExpression part assignment =>
      change "expected " ++ part.text ++ ", found " ++ (if assignment then _ else _) ++ _ = _ at h
      simp only [String.append_assoc] at h
      exact absurd h (append_ne_tooDeep (by simp) (by simp))
  | _ => exact absurd h (by decide +kernel)

/-- What is read in one place is read in another one where the same tokens stand. -/
theorem Reads.agree {view : α → γ} {p q : Parser α} {c d : Cursor} {deep : Prop}
    {post : α → Cursor → Prop} (h : Reads deep p c post) (hagree : Agree 0 view p q)
    (hcd : c.Alike 0 d) :
    Reads deep q d fun b d' => ∃ a c', view a = view b ∧ c'.Alike 0 d' ∧ post a c' := by
  have hsame := hagree c d hcd
  unfold Reads at h ⊢
  generalize p c = r at h hsame
  generalize q d = s at hsame
  cases hsame with
  | ok hview hcursor => exact ⟨_, _, hview, hcursor, h⟩
  | error hmessage =>
      refine ⟨h.1, Fault.eq_tooDeep ?_⟩
      rw [← hmessage, h.2]
      rfl
  | deep hk => exact absurd hk (Nat.lt_irrefl 0)

/-- And what is refused in one place is refused in the other. -/
theorem Yields.agree_false {view : α → γ} {p q : Parser α} {c d : Cursor}
    (h : Yields p c fun _ _ => False) (hagree : Agree 0 view p q) (hcd : c.Alike 0 d) :
    Yields q d fun _ _ => False := by
  intro b d' hrun
  have hsame := hagree c d hcd
  rw [hrun] at hsame
  generalize hp : p c = r at hsame
  cases hsame with
  | ok => exact h _ _ hp
  | deep hk => exact absurd hk (Nat.lt_irrefl 0)

theorem Reads.yields {p : Parser α} {c : Cursor} {deep : Prop} {post : α → Cursor → Prop}
    (h : Reads deep p c post) : Yields p c post := by
  intro a c' hrun
  rw [Reads, hrun] at h
  exact h

/-- What every successful run keeps may be added. -/
theorem Reads.and_yields {p : Parser α} {c : Cursor} {deep : Prop} {post post' : α → Cursor → Prop}
    (h : Reads deep p c post) (h' : Yields p c post') :
    Reads deep p c fun a c' => post a c' ∧ post' a c' := by
  unfold Reads at h ⊢
  cases hrun : p c with
  | ok a c' =>
      rw [hrun] at h
      exact ⟨h, h' a c' hrun⟩
  | error e c' =>
      rw [hrun] at h
      exact h

/-! ## Lists with one entry -/

section OneEntry

variable {item : Parser α} {close : Mark} {c : Cursor}

theorem reads_commaListUntil_one {deep : Prop} {post : List α → Cursor → Prop}
    (hstart : c.head.token ≠ .eof) (hne : c.head.token ≠ .mark close)
    (h : Reads deep item c fun a c' => c'.head.token ≠ .mark .comma ∧ post [a] c') :
    Reads deep (commaListUntil close item) c post := by
  refine reads_collect_once ?_
  rw [reads_bind, reads_peek]
  split
  · exact absurd ‹_› hstart
  · rw [if_neg hne]
    simp only [commaRound, reads_bind, reads_eats]
    refine h.mono fun a c' hgot => ?_
    simpa [hgot.1, Round.goesOn, Round.items] using hgot.2

theorem yields_commaListUntil_never (hstart : c.head.token ≠ .eof)
    (hne : c.head.token ≠ .mark close) (h : Yields item c fun _ _ => False) :
    Yields (commaListUntil close item) c fun _ _ => False := by
  simp only [commaListUntil, collect, yields_bind, yields_get]
  rw [collectFor.eq_def, yields_bind, yields_bind, yields_peek]
  split
  · exact absurd ‹_› hstart
  · rw [if_neg hne, commaRound, yields_bind]
    exact h.mono fun _ _ => False.elim

end OneEntry

/-- An entry without a name is a list of one field. -/
theorem reads_parameters_one {i : Inner} {e : Cursor} {deep : Prop}
    {P : Field → List Lexeme → Prop} (hopen : e.head.token = .mark .lparen)
    (hstart : e.advance.head.token ≠ .eof) (hne : e.advance.head.token ≠ .mark .rparen)
    (h : Reads deep (paramEntry i) e.advance fun entry e' => entry.isNamed = false ∧
      e'.head.token = .mark .rparen ∧ P entry.unnamedField e'.rest.tail) :
    Reads deep (parameters i) e fun fields e' => ∃ f, fields = [f] ∧ P f e'.rest := by
  simp only [parameters, reads_bind, reads_discard]
  refine reads_expect hopen (reads_commaListUntil_one hstart hne (h.mono ?_))
  rintro entry e' ⟨hnamed, hclose, hpost⟩
  refine ⟨by simp [hclose], reads_expect hclose ?_⟩
  cases entry with
  | bare name => exact ⟨_, rfl, hpost⟩
  | typed name type span =>
      simpa [groupParams, bareTypes, hnamed, ParamEntry.isBare, reads_makeField] using hpost

/-! ## Types that are names -/

/-- A type is read one level deeper. -/
theorem yields_type {n : Nat} {c : Cursor} {post : Expr → Cursor → Prop}
    (h : ∀ j, Yields (typeHere? (inner j)) (c.withDepth (c.depth + 1)) fun t c' =>
      ∀ x, t = some x → post x (c'.withDepth c.depth)) : Yields (type (inner n)) c post := by
  rw [type, type?, yields_bind, yields_nested]
  intro _
  cases n with
  | zero => exact yields_failHere
  | succ n =>
      refine (h n).mono fun t c' hpost => ?_
      cases t with
      | none => exact yields_failExpected
      | some x => exact yields_pure.mpr (hpost x rfl)

/-- The cursor stands in front of a name with a bracket behind it. -/
def Cursor.AtInstance (c : Cursor) : Prop :=
  (∃ text, c.head.token = .name text) ∧ c.second = .mark .lbrack

/-- Without brackets behind it, such a type is that of a package or the name alone. -/
theorem typeName_without_brackets {i : Inner} {c : Cursor} (hsecond : c.second ≠ .mark .lbrack) :
    Yields (typeName i) c fun t c' => c.second = .mark .dot ∨ c'.rest = c.rest.tail ∧
      ∃ text, c.head.token = .name text ∧ t = .ident ⟨text, c.head.span⟩ := by
  rw [← Cursor.advance_head_token] at hsecond ⊢
  simp only [typeName, yields_bind, yields_here, yields_name, yields_makeExpr, yields_eats,
    Cursor.withBench_head]
  intro text htext
  refine ⟨fun hdot => yields_true.mono fun _ _ _ => .inl hdot, fun _ => ?_⟩
  simp [instantiated, hsecond, htext]

/-- With brackets behind it, it has a first argument between them. -/
theorem typeName_with_brackets {n : Nat} {c : Cursor} (hsecond : c.second = .mark .lbrack) :
    Yields (typeName (inner n)) c fun _ c' => ∃ c₀ first c₁,
      type (inner n) c₀ = .ok first c₁ ∧ c₀.rest = c.advance.advance.rest ∧
      c₀.lastStop = c.advance.advance.lastStop ∧ c₀.exprLevel = c.exprLevel ∧
      c'.rest.length < c₁.rest.length ∧
      (c₁.head.token = .mark .comma ∨
        c₁.head.token = .mark .rbrack ∧ c'.rest = c₁.rest.tail) := by
  rw [← Cursor.advance_head_token] at hsecond
  simp only [typeName, yields_bind, yields_here, yields_name, yields_makeExpr, yields_eats,
    Cursor.withBench_head]
  intro text htext
  refine ⟨fun hdot => ?_, fun _ => ?_⟩
  · have hdot : c.advance.head.token = .mark .dot := hdot
    simp [hdot] at hsecond
  · rw [if_neg (by simp), instantiated, yields_bind, yields_eats]
    refine ⟨fun _ => ?_, fun hno => absurd hsecond hno⟩
    rw [if_pos rfl, yields_bind]
    intro first c₁ hfirst
    rw [yields_bind]
    intro others c₂ hothers
    rw [yields_bind, yields_discard, yields_expect]
    intro hclose
    have hlt : c₂.rest.tail.length < c₁.rest.length := by
      have hle := Repeats.length_le (k := ⟨[], [], by simp⟩) (ℓ := .any) (e := 1)
        (q := moreUntil .rbrack (type (inner n))) inferInstance hothers
      have hrest := Cursor.rest_ne_nil (c := c₂) (by simp [hclose])
      rw [List.length_tail]
      omega
    have hend : c₁.head.token = .mark .comma ∨
        c₁.head.token = .mark .rbrack ∧ c₂.rest.tail = c₁.rest.tail := by
      rcases yields_moreUntil_head others c₂ hothers with hcomma | rfl
      · exact .inl hcomma
      · exact .inr ⟨hclose, rfl⟩
    rw [yields_bind, yields_spanFrom]
    cases others with
    | nil => exact yields_makeExpr.mpr ⟨_, first, c₁, hfirst, rfl, rfl, rfl, hlt, hend⟩
    | cons => exact yields_makeExpr.mpr ⟨_, first, c₁, hfirst, rfl, rfl, rfl, hlt, hend⟩

/-! ## The entry -/

/-- Nothing on one side, and a parenthesis that closes on the other. -/
def Cut.paren (r : Lexeme) (tail : List Lexeme) (hr : r.token = .mark .rparen) : Cut :=
  ⟨[], r :: tail, by simp [hr, Token.closes]⟩

section Entry

variable {k : Cut} {n m : Nat} {c c' e : Cursor} {t : Expr}

/-- The argument in the brackets is a length, but no type follows the brackets. -/
theorem arrayType_refused {c₀ c₁ : Cursor} {first : Expr} (hbeside : c₀.Beside k .any e.advance)
    (hfirst : type (inner n) c₀ = .ok first c₁) (hbound : k.back.length < c₁.rest.length)
    (hend : c₁.head.token = .mark .comma ∨
      c₁.head.token = .mark .rbrack ∧ c₁.rest.tail.length = k.back.length) :
    Yields (arrayType (inner m)) e fun _ _ => False := by
  have hlt := Gains.takes k .any 0 (type (inner m)) c₀ first c₁ hfirst
  have hstarts := type_starts n c₀ first c₁ hfirst
  rw [(hbeside.ahead (by omega)).1] at hstarts
  have hends : c₁.EndsExpr k := by
    refine Cursor.endsExpr_of_head (by omega) ?_
    rcases hend with hend | hend
    · exact .inl hend
    · exact .inr (.inl hend.1)
  simp only [arrayType, arrayLength, yields_bind, yields_here, yields_discard, yields_expect,
    yields_peek]
  intro _
  split
  · simp_all [startsExpr, UnaryOp.ofToken?]
  · simp_all [startsExpr, UnaryOp.ofToken?]
  · rw [yields_bind, yields_bracketed]
    have hinside : c₀.Beside k .any (e.advance.withExprLevel (e.advance.exprLevel + 1)) := by
      have hfloor := hbeside.level.floor
      refine ⟨hbeside.rest, hbeside.lastStop, hfloor.1, ?_⟩
      rw [Cursor.withExprLevel_exprLevel]
      omega
    refine (retypes_expr n m c₀ _ hinside first c₁ hfirst hends).yields.mono ?_
    rintro _ d₁ ⟨rfl, h₁, -⟩
    rw [yields_pure]
    intro hclose
    have hahead := h₁.ahead hbound
    have hclose : d₁.head.token = .mark .rbrack := hclose
    rcases hend with hend | ⟨-, hlast⟩
    · simp [hahead.1, hclose] at hend
    · have hcloses := hahead.2.closes (Nat.le_of_eq hlast)
      refine (type_starts m _).mono fun _ _ hstarts' => ?_
      have hstarts' : startsExpr d₁.advance.head.token := hstarts'
      rcases Token.closes_iff.mp hcloses with ht | ht | ht <;>
        simp [ht, startsExpr, UnaryOp.ofToken?] at hstarts'

/-- So no type starts at the bracket. -/
theorem paramType_refused {c₀ c₁ : Cursor} {first : Expr}
    (hbracket : e.head.token = .mark .lbrack) (hbeside : c₀.Beside k .any e.advance)
    (hfirst : type (inner n) c₀ = .ok first c₁) (hbound : k.back.length < c₁.rest.length)
    (hend : c₁.head.token = .mark .comma ∨
      c₁.head.token = .mark .rbrack ∧ c₁.rest.tail.length = k.back.length) :
    Yields (paramType (inner m)) e fun _ _ => False := by
  simp only [paramType, yields_bind, yields_eat, hbracket]
  refine ⟨by simp, fun _ => yields_type fun j => ?_⟩
  simp only [typeHere?, yields_bind, yields_peek, Cursor.withDepth_head, hbracket, yields_map]
  have hbeside : c₀.Beside k .any (e.withDepth (e.depth + 1)).advance :=
    ⟨hbeside.rest, hbeside.lastStop, hbeside.level⟩
  exact (arrayType_refused hbeside hfirst hbound hend).mono fun _ _ => False.elim

/-- A name with brackets behind it is no entry by itself. -/
theorem paramEntry_refused (hce : c.Beside k .any e) (htype : type (inner n) c = .ok t c')
    (hall : c'.rest.length = k.back.length) (hat : c.AtInstance) :
    Yields (paramEntry (inner m)) e fun _ _ => False := by
  obtain ⟨⟨text, hname⟩, hsecond⟩ := hat
  have hinst : Yields (type (inner n)) c fun _ c' => ∃ j c₀ first c₁,
      type (inner j) c₀ = .ok first c₁ ∧ c₀.rest = c.advance.advance.rest ∧
      c₀.lastStop = c.advance.advance.lastStop ∧ c₀.exprLevel = c.exprLevel ∧
      c'.rest.length < c₁.rest.length ∧
      (c₁.head.token = .mark .comma ∨
        c₁.head.token = .mark .rbrack ∧ c'.rest = c₁.rest.tail) := by
    refine yields_type fun j => ?_
    simp only [typeHere?, yields_bind, yields_peek, Cursor.withDepth_head, hname, yields_map]
    refine (typeName_with_brackets (c := c.withDepth (c.depth + 1)) hsecond).mono ?_
    rintro x c' hgot _ -
    exact ⟨j, hgot⟩
  obtain ⟨j, c₀, first, c₁, hfirst, hrest, hstop, hlevel, hlast, hend⟩ := hinst t c' htype
  have hlt := Gains.takes k .any 0 (type (inner m)) c₀ first c₁ hfirst
  simp only [hrest, Cursor.advance_rest, List.length_tail] at hlt
  have hahead := hce.ahead (by omega)
  have hnext := hahead.2.ahead (by rw [Cursor.advance_rest, List.length_tail]; omega)
  have hsecond' : e.second = .mark .lbrack := by rw [← hce.second (by omega), hsecond]
  have hbracket : e.advance.head.token = .mark .lbrack := by
    rw [Cursor.advance_head_token, hsecond']
  simp only [paramEntry, yields_bind, yields_here, yields_peek, ← hahead.1, hname,
    yields_peekSecond, hsecond', yields_name]
  intro text' _
  refine (paramType_refused (k := k) (e := e.advance.withBench (e.bench.addName text')) hbracket
    ?_ hfirst (by omega) ?_).mono fun _ _ => False.elim
  · refine ⟨?_, ?_, hlevel ▸ hnext.2.level⟩
    · rw [hrest]
      exact hnext.2.rest
    · rw [hstop]
      exact hnext.2.lastStop
  · rcases hend with hend | ⟨hend, hrest'⟩
    · exact .inl hend
    · exact .inr ⟨hend, by rw [← hrest', hall]⟩

section Accepted

variable {r : Lexeme} {tail : List Lexeme} {hr : r.token = .mark .rparen}

/-- Where all was read, the parenthesis is ahead. -/
theorem Cursor.Beside.rest_paren {ℓ : LevelRule} (h : c.Beside (.paren r tail hr) ℓ e)
    (hall : c.rest = []) : e.rest = r :: tail := by
  obtain ⟨left, hc, he⟩ := h.rest
  rw [hall] at hc
  rw [he, (List.append_eq_nil_iff.mp hc.symm).1]
  rfl

/-- A name without brackets behind it is an entry by itself, or the first part of one. -/
theorem reads_paramEntry_name (hce : c.Beside (.paren r tail hr) .any e) {text : String}
    (hname : c.head.token = .name text) (hsecond : c.second ≠ .mark .lbrack)
    (htype : typeName (inner n) c = .ok t c') (hall : c'.rest = []) :
    Reads True (paramEntry (inner m)) e fun entry e' => entry.isNamed = false ∧
      e'.rest = r :: tail ∧ entry.unnamedField.type = t := by
  have hahead := hce.ahead (Cursor.rest_ne_nil (by simp [hname]))
  have hname' : e.head.token = .name text := by rw [← hahead.1, hname]
  simp only [paramEntry, reads_bind, reads_here, reads_peek, hname', reads_peekSecond]
  rcases typeName_without_brackets hsecond t c' htype with hdot | ⟨hlast, text', htext, rfl⟩
  · have hlength : 2 ≤ c.rest.length := by
      have hrest := Cursor.rest_ne_nil (c := c.advance) (by
        rw [Cursor.advance_head_token, hdot]
        simp)
      rw [Cursor.advance_rest, List.length_tail] at hrest
      omega
    rw [← hce.second hlength, hdot]
    simp only [reads_bind]
    have hagain := Repeats.again (e := 0) (q := typeName (inner m)) c e hce t c' htype
      (Nat.zero_le _)
    refine hagain.mono ?_
    rintro _ e' ⟨rfl, h', -⟩
    exact ⟨rfl, h'.rest_paren hall, rfl⟩
  · have hrest : e.advance.rest = r :: tail := hahead.2.rest_paren (hlast.symm.trans hall)
    have hparen : e.second = .mark .rparen := by
      rw [← Cursor.advance_head_token, Cursor.head, hrest]
      exact hr
    rw [hparen]
    simp only [reads_bind]
    refine reads_name hname' ?_
    obtain rfl : text = text' := by simpa [hname] using htext
    exact ⟨rfl, hrest, by rw [hahead.1]; rfl⟩

/-- Every other type is one too. -/
theorem reads_paramEntry (hce : c.Beside (.paren r tail hr) .any e)
    (htype : type (inner n) c = .ok t c') (hall : c'.rest = []) (hno : ¬ c.AtInstance) :
    Reads True (paramEntry (inner m)) e fun entry e' => entry.isNamed = false ∧
      e'.rest = r :: tail ∧ entry.unnamedField.type = t := by
  by_cases hname : ∃ text, c.head.token = .name text
  · obtain ⟨text, hname⟩ := hname
    have hrun : Yields (type (inner n)) c fun t c' => c'.rest = [] → ∃ j c₁,
        typeName (inner j) (c.withDepth (c.depth + 1)) = .ok t c₁ ∧ c₁.rest = [] := by
      refine yields_type fun j => ?_
      simp only [typeHere?, yields_bind, yields_peek, Cursor.withDepth_head, hname, yields_map]
      rintro x c₁ hrun _ ⟨⟩ hall
      exact ⟨j, c₁, hrun, hall⟩
    obtain ⟨j, c₁, hrun, hall₁⟩ := hrun t c' htype hall
    exact reads_paramEntry_name (hce.withDepth (c.depth + 1) e.depth) hname
      (fun h => hno ⟨⟨text, hname⟩, h⟩) hrun hall₁
  · have hlt : c'.rest.length < c.rest.length :=
      Gains.takes (.paren r tail hr) .any 0 (type (inner m)) c t c' htype
    have hahead := hce.ahead (Nat.zero_lt_of_lt hlt)
    have hellipsis : e.head.token ≠ .mark .ellipsis := by
      rw [← hahead.1]
      intro heq
      have hstarts := type_starts n c t c' htype
      simp [heq, startsExpr, UnaryOp.ofToken?] at hstarts
    simp only [paramEntry, reads_bind, reads_here, reads_peek, ← hahead.1]
    split
    · exact absurd ⟨_, ‹_›⟩ hname
    · simp only [paramType, reads_bind, reads_eat, if_neg hellipsis]
      have hagain := Repeats.again (e := 0) (q := type (inner m)) c e hce t c' htype
        (Nat.zero_le _)
      refine hagain.mono ?_
      rintro _ e' ⟨rfl, h', -⟩
      exact ⟨rfl, h'.rest_paren hall, rfl⟩

end Accepted

end Entry

/-! ## The list -/

section List

variable {n m : Nat} {c c' d : Cursor} {t : Expr} {l r : Lexeme} {ms tail : List Lexeme}

/-- In front of the lexemes of `c` in parentheses, with the places of the type kept. -/
def Cursor.inParens (d c : Cursor) (r : Lexeme) (tail : List Lexeme) : Cursor :=
  { d with rest := ⟨0, c.lastStop, .mark .lparen⟩ :: (c.rest ++ r :: tail) }

theorem Cursor.beside_inParens (hr : r.token = .mark .rparen) (tail : List Lexeme)
    (hc : -1 ≤ c.exprLevel) (hd : -1 ≤ d.exprLevel) :
    c.Beside (.paren r tail hr) .any (d.inParens c r tail).advance :=
  ⟨⟨c.rest, by simp [Cut.paren], rfl⟩, rfl, hc, hd⟩

theorem Cursor.inParens_alike (hrest : d.rest = l :: (ms ++ r :: tail))
    (hl : l.token = .mark .lparen) (hsame : ms.map sight = c.rest.map sight) :
    (d.inParens c r tail).Alike 0 d where
  sights := by
    have hparen : sight ⟨0, c.lastStop, .mark .lparen⟩ = sight l := by
      simp [sight, hl, Lexeme.isLineEnd]
    simp [inParens, hrest, hsame, hparen]
  exprLevel := rfl
  depth := rfl

/-- The results of a function in parentheses are read like its parameters. -/
theorem results_lparen {i : Inner} (h : d.head.token = .mark .lparen) :
    results i d = parameters i d := by
  change (if decide (d.head.token = .mark .lparen) = true then parameters i else _) d = _
  rw [if_pos (by simp [h])]

/-- What stands in the parentheses is not nothing. -/
theorem Cursor.inParens_starts (htype : type (inner n) c = .ok t c')
    (hr : r.token = .mark .rparen) (tail : List Lexeme) (hc : -1 ≤ c.exprLevel)
    (hd : -1 ≤ d.exprLevel) : startsExpr (d.inParens c r tail).advance.head.token := by
  have hlt : c'.rest.length < c.rest.length :=
    Gains.takes (.paren r tail hr) .any 0 (type (inner n)) c t c' htype
  rw [← ((Cursor.beside_inParens hr tail hc hd).ahead (Nat.zero_lt_of_lt hlt)).1]
  exact type_starts n c t c' htype

/-- The list is refused where the type is a name with brackets behind it. -/
theorem parameters_refused (htype : type (inner n) c = .ok t c') (hall : c'.rest = [])
    (hr : r.token = .mark .rparen) (hc : -1 ≤ c.exprLevel) (hd : -1 ≤ d.exprLevel)
    (hat : c.AtInstance) :
    Yields (parameters (inner m)) (d.inParens c r tail) fun _ _ => False := by
  have hstarts := Cursor.inParens_starts htype hr tail hc hd
  have hentry := paramEntry_refused (m := m) (Cursor.beside_inParens hr tail hc hd) htype
    (by simp [hall, Cut.paren]) hat
  simp only [parameters, yields_bind, yields_discard, yields_expect]
  intro _
  refine (yields_commaListUntil_never ?_ ?_ hentry).mono fun _ _ => False.elim
  · intro heq
    simp [heq, startsExpr, UnaryOp.ofToken?] at hstarts
  · intro heq
    simp [heq, startsExpr, UnaryOp.ofToken?] at hstarts

/-- The list is accepted where it is not. -/
theorem reads_parameters (htype : type (inner n) c = .ok t c') (hall : c'.rest = [])
    (hr : r.token = .mark .rparen) (hc : -1 ≤ c.exprLevel) (hd : -1 ≤ d.exprLevel)
    (hno : ¬ c.AtInstance) :
    Reads True (parameters (inner m)) (d.inParens c r tail) fun fields e' => ∃ f,
      fields = [f] ∧ f.names = [] ∧ f.tag = none ∧ f.type = t ∧ e'.rest = tail := by
  have hstarts := Cursor.inParens_starts htype hr tail hc hd
  refine reads_parameters_one (P := fun f rest => f.names = [] ∧ f.tag = none ∧ f.type = t ∧
    rest = tail) rfl ?_ ?_ ?_
  · intro heq
    simp [heq, startsExpr, UnaryOp.ofToken?] at hstarts
  · intro heq
    simp [heq, startsExpr, UnaryOp.ofToken?] at hstarts
  · refine (reads_paramEntry (Cursor.beside_inParens hr tail hc hd) htype hall hno).mono ?_
    rintro entry e' ⟨hnamed, hrest, rfl⟩
    refine ⟨hnamed, by simp [Cursor.head, hrest, hr], ?_⟩
    cases entry <;> exact ⟨rfl, rfl, rfl, by rw [hrest]; rfl⟩

/--
**A type means the same as an unnamed parameter, and as a result in parentheses.** A type
that is read in full, put in parentheses, is one field without a name and with the same
type, if the nesting limit allows; the exception is a name with brackets behind it, which
is refused there.
-/
theorem type_as_parameter (htype : type (inner n) c = .ok t c') (hall : c'.rest = [])
    (hc : -1 ≤ c.exprLevel) (hd : -1 ≤ d.exprLevel) (hrest : d.rest = l :: (ms ++ r :: tail))
    (hl : l.token = .mark .lparen) (hr : r.token = .mark .rparen)
    (hsame : ms.map sight = c.rest.map sight) {p : Parser (List Field)}
    (hp : p ∈ [parameters (inner m), results (inner m)]) :
    (¬ c.AtInstance → Reads True p d fun fields d' => ∃ f, fields = [f] ∧ f.names = [] ∧
      f.tag = none ∧ f.type.bare = t.bare ∧ d'.rest = tail) ∧
    (c.AtInstance → ∃ error d', p d = .error error d') := by
  have hhead : d.head.token = .mark .lparen := by simp [Cursor.head, hrest, hl]
  have hpd : p d = parameters (inner m) d := by
    rcases List.mem_pair.mp hp with rfl | rfl
    · rfl
    · exact results_lparen hhead
  have hagree := parameters_agree (inner_agree_self (k := 0) m)
  have halike := Cursor.inParens_alike hrest hl hsame
  refine ⟨fun hno => ?_, fun hat => ?_⟩
  · rw [Reads, hpd, ← Reads]
    have hreads := (reads_parameters (m := m) htype hall hr hc hd hno).agree hagree halike
    have hmoves : Yields (parameters (inner m)) d fun _ d' => d'.rest <:+ d.rest ∧ _ :=
      Repeats.moves (.paren r tail hr) .any 0 (parameters (inner m)) d
    refine (hreads.and_yields hmoves).mono ?_
    rintro fields d' ⟨⟨_, e', hview, halike', f, rfl, hnames, htag, rfl, hrest'⟩, hsuffix, -⟩
    obtain ⟨g, rfl, hbare⟩ : ∃ g, fields = [g] ∧ f.bare = g.bare := by
      obtain ⟨g, hg, hbare⟩ := List.map_eq_singleton_iff.mp hview.symm
      exact ⟨g, hg, hbare.symm⟩
    have hlength : d'.rest.length = tail.length := by
      have hsights := congrArg List.length halike'.sights
      rw [List.length_map, List.length_map, hrest'] at hsights
      exact hsights.symm
    have htail : tail <:+ d.rest := by
      rw [hrest]
      exact ⟨l :: (ms ++ [r]), by simp⟩
    have hd' : d'.rest = tail :=
      (List.suffix_of_suffix_length_le hsuffix htail (Nat.le_of_eq hlength)).eq_of_length hlength
    obtain ⟨_, names, type, tag⟩ := f
    obtain ⟨span, names', type', tag'⟩ := g
    obtain rfl : names = [] := hnames
    obtain rfl : tag = none := htag
    obtain ⟨hnames', htype', htag'⟩ : names' = [] ∧ type.bare = type'.bare ∧ tag' = none := by
      simpa [eq_comm] using hbare
    exact ⟨_, rfl, hnames', htag', htype'.symm, hd'⟩
  · have hrefused := (parameters_refused (m := m) htype hall hr hc hd hat).agree_false hagree halike
    rw [hpd]
    cases hrun : parameters (inner m) d with
    | ok fields d' => exact (hrefused fields d' hrun).elim
    | error error d' => exact ⟨error, d', rfl⟩

end List

/-- An instance of another package's type. -/
theorem type_as_parameter_qualified :
    let c := Cursor.start (tokenize "p.T[int]").dropLast 8
    let d := Cursor.start (tokenize "(p.T[int])") 10
    ∃ t c', type (inner maxDepth) c = .ok t c' ∧ c'.rest = [] ∧
      Reads True (parameters (inner maxDepth)) d fun fields d' => ∃ f, fields = [f] ∧
        f.names = [] ∧ f.tag = none ∧ f.type.bare = t.bare ∧ d'.rest = d.rest.drop 8 := by
  intro c d
  have hall : (match type (inner maxDepth) c with
      | .ok _ c' => c'.rest.isEmpty
      | .error _ _ => false) = true := by
    decide +kernel
  cases htype : type (inner maxDepth) c with
  | error => simp [htype] at hall
  | ok t c' =>
      have hall : c'.rest = [] := by simpa [htype] using hall
      refine ⟨t, c', rfl, hall, ?_⟩
      refine (type_as_parameter (l := d.head) (r := ⟨9, 10, .mark .rparen⟩) htype hall (by decide)
        (by decide) (by decide +kernel : d.rest = d.head :: (d.rest.tail.take 6 ++ _))
        (by decide +kernel) rfl (by decide +kernel) (.head _)).1 ?_
      rintro ⟨-, hsecond⟩
      exact absurd hsecond (by decide +kernel)

/-- An instance of a type of this package is refused, though it may be the type of a variable. -/
theorem instance_as_parameter_refused :
    ((parseDecl "var x T[int]").toOption.map fun f => f.root.english) =
      some "declare variable x as T[int]" ∧
    (match parseExpr "func(T[int])" with
      | .error failure => failure.diagnostics.map Diagnostic.message
      | .ok _ => []) = ["expected type, found ')'"] := by
  decide +kernel

end GoGloss.Grammar
