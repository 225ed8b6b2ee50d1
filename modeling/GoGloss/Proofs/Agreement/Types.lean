import GoGloss.Proofs.Agreement.Basic

/-!
# Readers of types agree

The productions for types agree with themselves on other productions one level
further in, if those agree. A parameter list is grouped when all of it is known;
which entry goes where depends on the entries without their places.
-/

namespace GoGloss.Grammar

/-! ## Parameter lists -/

/-- An entry of a parameter list without its places. -/
def ParamEntry.unplaced : ParamEntry → ParamEntry
  | .bare name => .bare name.bare
  | .typed name type _ => .typed (name.map Name.bare) type.bare default

theorem ParamEntry.isNamed_unplaced (e : ParamEntry) : e.unplaced.isNamed = e.isNamed := by
  cases e with
  | bare name => rfl
  | typed name type span => cases name <;> rfl

theorem ParamEntry.bare_unnamedField {e e' : ParamEntry} (h : e.unplaced = e'.unplaced) :
    e.unnamedField.bare = e'.unnamedField.bare := by
  cases e <;> cases e' <;> simp_all [unplaced, unnamedField]

/-- The fields of a parameter list without their places, or none if its entries do not fit. -/
def grouped : Except Span (List Field) → Option (List Field)
  | .ok fields => some (fields.map Field.bare)
  | .error _ => none

theorem grouped_cons (f : Field) (r : Except Span (List Field)) :
    grouped (do return f :: (← r)) = (grouped r).map (f.bare :: ·) := by
  cases r <;> rfl

theorem groupNamed_agree {waiting waiting' : List Name} (last last' : Span)
    {entries entries' : List ParamEntry} (hwaiting : waiting.map Name.bare = waiting'.map Name.bare)
    (h : entries.map ParamEntry.unplaced = entries'.map ParamEntry.unplaced) :
    grouped (groupNamed waiting last entries) = grouped (groupNamed waiting' last' entries') := by
  induction entries generalizing waiting waiting' last last' entries' with
  | nil =>
      obtain rfl : entries' = [] := by simpa using h.symm
      cases waiting <;> cases waiting' <;> simp_all [groupNamed, grouped]
  | cons e entries ih =>
      obtain ⟨e', entries', rfl, he, htail⟩ := List.map_eq_cons_iff.mp h.symm
      cases e with
      | bare name =>
          cases e' with
          | bare name' =>
              have hname : name'.bare = name.bare := by simpa [ParamEntry.unplaced] using he
              simp only [groupNamed]
              exact ih _ _ (by simp [hwaiting, hname]) htail.symm
          | typed => simp [ParamEntry.unplaced] at he
      | typed name type span =>
          cases e' with
          | bare => simp [ParamEntry.unplaced] at he
          | typed name' type' span' =>
              obtain ⟨hname, htype⟩ : name'.map Name.bare = name.map Name.bare ∧
                  type'.bare = type.bare := by simpa [ParamEntry.unplaced] using he
              cases name <;> cases name' <;> simp at hname
              · rfl
              · simp only [groupNamed, grouped_cons, Field.bare]
                rw [ih span span' rfl htail.symm]
                simp [hwaiting, hname, htype]

theorem unnamedFields_agree {entries entries' : List ParamEntry}
    (h : entries.map ParamEntry.unplaced = entries'.map ParamEntry.unplaced) :
    (entries.map ParamEntry.unnamedField).map Field.bare =
      (entries'.map ParamEntry.unnamedField).map Field.bare := by
  induction entries generalizing entries' with
  | nil =>
      obtain rfl : entries' = [] := by simpa using h.symm
      rfl
  | cons e entries ih =>
      obtain ⟨e', entries', rfl, he, htail⟩ := List.map_eq_cons_iff.mp h.symm
      simp only [List.map_cons]
      rw [ih htail.symm, ParamEntry.bare_unnamedField he]

theorem groupParams_agree {entries entries' : List ParamEntry}
    (h : entries.map ParamEntry.unplaced = entries'.map ParamEntry.unplaced) :
    grouped (groupParams entries) = grouped (groupParams entries') := by
  have hany : ∀ es : List ParamEntry,
      es.any ParamEntry.isNamed = (es.map ParamEntry.unplaced).any ParamEntry.isNamed := by
    intro es
    simp [List.any_map, Function.comp_def, ParamEntry.isNamed_unplaced]
  unfold groupParams
  rw [hany entries, hany entries', h]
  split
  · exact groupNamed_agree _ _ rfl h
  · exact congrArg some (unnamedFields_agree h)

/-! ## Productions -/

/-- The productions one level further in agree. -/
structure Inner.Agree (k : Nat) (inner inner' : Inner) : Prop where
  binary : ∀ least, Grammar.Agree k Expr.bare (inner.binary least) (inner'.binary least)
  unary : Grammar.Agree k Expr.bare inner.unary inner'.unary
  type? : Grammar.Agree k (Option.map Expr.bare) inner.type? inner'.type?
  literalValue : ∀ {t t' : Option Expr} (start start' : Nat),
    t.map Expr.bare = t'.map Expr.bare →
    Grammar.Agree k Expr.bare (inner.literalValue t start) (inner'.literalValue t' start')
  stmt : Grammar.Agree k Stmt.bare inner.stmt inner'.stmt
  ifStmt : Grammar.Agree k Stmt.bare inner.ifStmt inner'.ifStmt

section Productions

variable {k : Nat} {inner inner' : Inner} (hi : inner.Agree k inner')
include hi

theorem expr_agree : Agree k Expr.bare (expr inner) (expr inner') :=
  (hi.binary 1).nested

theorem exprList_agree : Agree k (List.map Expr.bare) (exprList inner) (exprList inner') :=
  (expr_agree hi).commaList

theorem operandUnder_agree : Agree k Expr.bare (operandUnder inner) (operandUnder inner') :=
  hi.unary.nested

theorem type?_agree : Agree k (Option.map Expr.bare) (type? inner) (type? inner') :=
  hi.type?.nested

theorem type_agree : Agree k Expr.bare (type inner) (type inner') := by
  refine (type?_agree hi).bind fun t t' ht => ?_
  cases t <;> cases t' <;> simp at ht
  · exact agree_failExpected
  · exact agree_pure ht

theorem stmt_agree : Agree k Stmt.bare (stmt inner) (stmt inner') :=
  hi.stmt.nested

/-! ## Types -/

theorem paramType_agree : Agree k Expr.bare (paramType inner) (paramType inner') := by
  refine agree_eat_bind (fun pos pos' => ?_) (type_agree hi)
  refine (type_agree hi).bind fun t t' ht => ?_
  exact .makeExpr fun _ _ => by simp [ht]

theorem instantiated_agree {t t' : Expr} (ht : t.bare = t'.bare) (start start' : Nat) :
    Agree k Expr.bare (instantiated inner start t) (instantiated inner' start' t') := by
  refine (agree_eats _).same fun _ => .ite ?_ (agree_pure ht)
  refine (type_agree hi).bind fun first first' hfirst => ?_
  refine (type_agree hi).moreUntil.bind fun others others' hothers => ?_
  refine .skip <| .span fun _ _ => ?_
  cases others <;> cases others' <;> simp at hothers
  · exact agree_makeExpr (by simp [ht, hfirst])
  · exact agree_makeExpr (by simp [ht, hfirst, hothers])

theorem typeName_agree : Agree k Expr.bare (typeName inner) (typeName inner') := by
  refine .here fun start start' => agree_name.bind fun n n' hn => ?_
  refine (agree_makeExpr (by simp [hn])).bind fun t t' ht => ?_
  refine (agree_eats _).same fun _ => .ite ?_ (instantiated_agree hi ht _ _)
  refine agree_name.bind fun member member' hmember => ?_
  refine .span fun _ _ => ?_
  refine (agree_makeExpr (by simp [ht, hmember])).bind fun t t' ht => ?_
  exact instantiated_agree hi ht _ _

theorem paramEntry_agree :
    Agree k ParamEntry.unplaced (paramEntry inner) (paramEntry inner') := by
  have hunnamed : ∀ start start', Agree k ParamEntry.unplaced
      (do return .typed none (← paramType inner) (← spanFrom start))
      (do return .typed none (← paramType inner') (← spanFrom start')) := by
    intro start start'
    refine (paramType_agree hi).bind fun t t' ht => .span fun _ _ => ?_
    exact agree_pure (by simp [ParamEntry.unplaced, ht])
  refine .here fun start start' => agree_peek.same fun t => ?_
  split
  · refine agree_peekSecond.same fun t => ?_
    split
    · exact agree_name.map fun n n' hn => congrArg ParamEntry.bare hn
    · exact agree_name.map fun n n' hn => congrArg ParamEntry.bare hn
    · refine (typeName_agree hi).bind fun t t' ht => .span fun _ _ => ?_
      exact agree_pure (by simp [ParamEntry.unplaced, ht])
    · refine agree_name.bind fun n n' hn => (paramType_agree hi).bind fun t t' ht => ?_
      exact .span fun _ _ =>
        agree_pure (by simp [ParamEntry.unplaced, hn, ht])
  · exact hunnamed _ _

theorem parameters_agree :
    Agree k (List.map Field.bare) (parameters inner) (parameters inner') := by
  refine .skip ?_
  refine (paramEntry_agree hi).commaListUntil.bind fun entries entries' hentries => ?_
  refine .skip ?_
  have hgroup := groupParams_agree hentries
  cases hfields : groupParams entries <;> cases hfields' : groupParams entries' <;>
    simp [hfields, hfields', grouped] at hgroup
  · exact agree_failAt rfl
  · exact (agree_forM_makeExpr _ _).bind fun _ _ _ => agree_mapM_makeField hgroup

theorem results_agree : Agree k (List.map Field.bare) (results inner) (results inner') := by
  refine (agree_isAt _).same fun _ => .ite (parameters_agree hi) ?_
  refine .here fun _ _ => (type?_agree hi).bind fun t t' ht => ?_
  cases t <;> cases t' <;> simp at ht
  · exact agree_pure rfl
  · refine .span fun _ _ => ?_
    exact (agree_makeField (by simp [ht])).bind fun f f' hf => agree_pure (by simp [hf])

theorem signature_agree : Agree k (Prod.map (List.map Field.bare) (List.map Field.bare))
    (signature inner) (signature inner') := by
  refine (parameters_agree hi).bind fun params params' hparams => ?_
  refine (results_agree hi).bind fun results results' hresults => ?_
  exact agree_pure (by simp [hparams, hresults])

theorem funcType_agree : Agree k Expr.bare (funcType inner) (funcType inner') := by
  refine .here fun _ _ => .expect fun _ _ => ?_
  refine (signature_agree hi).bind fun s s' hs => .span fun _ _ => ?_
  simp only [Prod.map, Prod.mk.injEq] at hs
  exact agree_makeExpr (by simp [hs, bareSpan])

theorem arrayLength_agree :
    Agree k (Option.map Expr.bare) (arrayLength inner) (arrayLength inner') := by
  refine agree_peek.same fun t => ?_
  split
  · exact agree_pure rfl
  · refine .take fun _ _ => (agree_makeExpr (by simp)).bind fun x x' hx => ?_
    exact agree_pure (by simp [hx])
  · exact (expr_agree hi).bracketed.bind fun x x' hx => agree_pure (by simp [hx])

theorem arrayType_agree : Agree k Expr.bare (arrayType inner) (arrayType inner') := by
  refine .here fun _ _ => .skip ?_
  refine (arrayLength_agree hi).bind fun length length' hlength => ?_
  refine .skip <| (type_agree hi).bind fun elem elem' helem => ?_
  exact .makeExpr fun _ _ => by simp [hlength, helem]

omit hi in
theorem fieldNames_agree : Agree k (List.map Name.bare) fieldNames fieldNames := by
  refine agree_peek.same fun t => ?_
  split
  · exact agree_pure rfl
  · exact agree_peekSecond.same fun t => .ite (agree_pure rfl) agree_nameList
  · exact agree_failExpected

theorem fieldDecl_agree : Agree k Field.bare (fieldDecl inner) (fieldDecl inner') := by
  refine .here fun _ _ => fieldNames_agree.bind fun names names' hnames => ?_
  refine (type_agree hi).bind fun t t' ht => agree_textLiteral?.bind fun tag tag' htag => ?_
  exact .span fun _ _ => agree_makeField (by simp [hnames, ht, htag])

theorem structType_agree : Agree k Expr.bare (structType inner) (structType inner') := by
  refine .here fun _ _ => .skip ?_
  refine .skip ?_
  refine (fieldDecl_agree hi).endedListUntil.bind fun fields fields' hfields => ?_
  refine .skip ?_
  exact .makeExpr fun _ _ => by simp [hfields]

theorem typeTerm_agree : Agree k Expr.bare (typeTerm inner) (typeTerm inner') := by
  refine .here fun _ _ => agree_eat_bind (fun _ _ => ?_) (type_agree hi)
  refine (type_agree hi).bind fun t t' ht => ?_
  exact .makeExpr fun _ _ => by simp [ht]

theorem unionRound_agree {left left' : Expr} (hleft : left.bare = left'.bare)
    (start start' : Nat) :
    Agree k (Option.map Expr.bare) (unionRound inner start left)
      (unionRound inner' start' left') := by
  refine (agree_isAt _).same fun _ => .ite ?_ (agree_pure rfl)
  refine agree_enter.bind fun _ _ _ => .take fun _ _ => ?_
  refine (typeTerm_agree hi).bind fun right right' hright => ?_
  refine .span fun _ _ => ?_
  exact (agree_makeExpr (by simp [hleft, hright])).bind fun x x' hx => agree_pure (by simp [hx])

theorem interfaceMethod_agree :
    Agree k Field.bare (interfaceMethod inner) (interfaceMethod inner') := by
  refine .here fun _ _ => agree_name.bind fun n n' hn => ?_
  refine .here fun _ _ => (signature_agree hi).bind fun s s' hs => ?_
  simp only [Prod.map, Prod.mk.injEq] at hs
  refine .span fun _ _ => ?_
  refine (agree_makeExpr (by simp [hs])).bind fun t t' ht => ?_
  exact .span fun _ _ => agree_makeField (by simp [hn, ht])

theorem interfaceUnion_agree :
    Agree k Field.bare (interfaceUnion inner) (interfaceUnion inner') := by
  refine .here fun _ _ => (typeTerm_agree hi).bind fun first first' hfirst => ?_
  refine (Agree.extend hfirst fun left left' hleft => unionRound_agree hi hleft _ _).bind
    fun t t' ht => ?_
  exact .span fun _ _ => agree_makeField (by simp [ht])

theorem interfaceMember_agree :
    Agree k Field.bare (interfaceMember inner) (interfaceMember inner') := by
  refine agree_peek.same fun t => agree_peekSecond.same fun t' => ?_
  split
  · exact interfaceMethod_agree hi
  · exact interfaceUnion_agree hi

theorem interfaceType_agree : Agree k Expr.bare (interfaceType inner) (interfaceType inner') := by
  refine .here fun _ _ => .skip ?_
  refine .skip ?_
  refine (interfaceMember_agree hi).endedListUntil.bind fun members members' hmembers => ?_
  refine .skip ?_
  exact .makeExpr fun _ _ => by simp [hmembers]

theorem pointerType_agree : Agree k Expr.bare (pointerType inner) (pointerType inner') := by
  refine .here fun _ _ => .take fun _ _ => ?_
  refine (type_agree hi).bind fun t t' ht => ?_
  exact .makeExpr fun _ _ => by simp [ht]

theorem mapType_agree : Agree k Expr.bare (mapType inner) (mapType inner') := by
  refine .here fun _ _ => .drop ?_
  refine .skip <| (type_agree hi).bind fun key key' hkey => ?_
  refine .skip ?_
  refine (type_agree hi).bind fun value value' hvalue => ?_
  exact .makeExpr fun _ _ => by simp [hkey, hvalue]

theorem chanType_agree : Agree k Expr.bare (chanType inner) (chanType inner') := by
  refine .here fun _ _ => .drop ?_
  refine (agree_eats _).same fun arrow => (type_agree hi).bind fun elem elem' helem => ?_
  exact .makeExpr fun _ _ => by simp [helem]

theorem receiveType_agree : Agree k Expr.bare (receiveType inner) (receiveType inner') := by
  refine .here fun _ _ => .drop ?_
  refine .skip <| (type_agree hi).bind fun elem elem' helem => ?_
  exact .makeExpr fun _ _ => by simp [helem]

theorem parenType_agree : Agree k Expr.bare (parenType inner) (parenType inner') := by
  refine .here fun _ _ => .take fun _ _ => ?_
  refine (type_agree hi).bind fun t t' ht => .expect fun _ _ => ?_
  exact .makeExpr fun _ _ => by simp [ht]

theorem typeHere?_agree : Agree k (Option.map Expr.bare) (typeHere? inner) (typeHere? inner') := by
  refine agree_peek.same fun t => ?_
  split
  · exact (typeName_agree hi).some
  · exact (funcType_agree hi).some
  · exact (arrayType_agree hi).some
  · exact (structType_agree hi).some
  · exact (interfaceType_agree hi).some
  · exact (pointerType_agree hi).some
  · exact (mapType_agree hi).some
  · exact (chanType_agree hi).some
  · exact (receiveType_agree hi).some
  · exact (parenType_agree hi).some
  · exact agree_pure rfl

end Productions

end GoGloss.Grammar
