import GoGloss.Proofs.Atoms

/-!
# Reading types keeps the atoms

The productions for types keep the atoms, given that the productions one level
further in do. A parameter list is read as entries first and grouped into fields
when all of it is known; the grouping keeps the atoms too.
-/

namespace GoGloss.Grammar

/-! ## Parameter lists -/

/-- The atoms of an entry of a parameter list. -/
def ParamEntry.atoms : ParamEntry → List Atom
  | .bare name => [.name name]
  | .typed name type _ => name.toList.map .name ++ type.atoms

theorem ParamEntry.atoms_unnamedField {e : ParamEntry} (h : e.isNamed = false) :
    e.unnamedField.atoms = e.atoms := by
  cases e with
  | bare name => simp [unnamedField, atoms]
  | typed name type span => cases name <;> simp_all [unnamedField, atoms, isNamed]

/-- Names that wait for their type come before the entries still to be grouped. -/
theorem Grouped.atoms {waiting : List Name} {entries : List ParamEntry} {fields : List Field}
    (h : Grouped waiting entries fields) :
    fields.flatMap Field.atoms = waiting.map .name ++ entries.flatMap ParamEntry.atoms := by
  induction h with
  | nil => rfl
  | bare _ ih | typed _ ih => simp [ih, ParamEntry.atoms]

/-- Grouping the entries of a parameter list keeps the atoms. -/
theorem groupParams_atoms {entries : List ParamEntry} {fields : List Field}
    (h : groupParams entries = .ok fields) :
    Field.atomsAll fields = entries.flatMap ParamEntry.atoms := by
  rw [Field.atomsAll_eq]
  unfold groupParams at h
  split at h
  · simpa using (grouped_of_groupNamed h).atoms
  · rename_i hany
    cases h
    rw [List.flatMap_map]
    have hnamed : ∀ e ∈ entries, e.isNamed = false := by simpa using hany
    rw [List.flatMap_def, List.flatMap_def]
    exact congrArg List.flatten
      (List.map_congr_left fun e he => ParamEntry.atoms_unnamedField (hnamed e he))

/-! ## Operators -/

theorem UnaryOp.isFixed_of_ofToken? {t : Token} {op : UnaryOp}
    (h : UnaryOp.ofToken? t = some op) : isFixed t := by
  cases t <;> simp_all [UnaryOp.ofToken?]

theorem BinaryOp.isFixed_of_ofToken? {t : Token} {op : BinaryOp}
    (h : BinaryOp.ofToken? t = some op) : isFixed t := by
  cases t <;> simp_all [BinaryOp.ofToken?]

theorem AssignOp.isFixed_of_ofToken? {t : Token} {op : AssignOp}
    (h : AssignOp.ofToken? t = some op) : isFixed t := by
  cases t <;> simp_all [AssignOp.ofToken?]

theorem StepOp.isFixed_of_ofToken? {t : Token} {op : StepOp}
    (h : StepOp.ofToken? t = some op) : isFixed t := by
  cases t <;> simp_all [StepOp.ofToken?]

theorem Jump.isFixed_of_ofToken? {t : Token} {jump : Jump}
    (h : Jump.ofToken? t = some jump) : isFixed t := by
  cases t <;> simp_all [Jump.ofToken?]

theorem DeclWord.isFixed_of_ofToken? {t : Token} {word : DeclWord}
    (h : DeclWord.ofToken? t = some word) : isFixed t := by
  cases t <;> simp_all [DeclWord.ofToken?]

/-! ## Productions -/

/-- The productions one level further in keep the atoms. -/
structure Inner.KeepsAtoms (inner : Inner) : Prop where
  binary : ∀ least, Grammar.KeepsAtoms (inner.binary least) Expr.atoms
  unary : Grammar.KeepsAtoms inner.unary Expr.atoms
  type? : Grammar.KeepsAtoms inner.type? Expr.atomsOption
  /-- The type of a composite literal was read before. -/
  literalValue : ∀ t start c, Yields (inner.literalValue t start) c fun x c' =>
    Expr.atomsOption t ++ c.atoms = x.atoms ++ c'.atoms
  stmt : Grammar.KeepsAtoms inner.stmt Stmt.atoms
  ifStmt : Grammar.KeepsAtoms inner.ifStmt Stmt.atoms

section Productions

variable {inner : Inner} (hi : inner.KeepsAtoms) {c : Cursor}
include hi

theorem expr_atoms : KeepsAtoms (expr inner) Expr.atoms :=
  (hi.binary 1).nested

theorem exprList_atoms : KeepsAtoms (exprList inner) Expr.atomsAll :=
  (expr_atoms hi).commaList.mono fun xs => (Expr.atomsAll_eq xs).symm

theorem operandUnder_atoms : KeepsAtoms (operandUnder inner) Expr.atoms :=
  hi.unary.nested

theorem type?_atoms : KeepsAtoms (type? inner) Expr.atomsOption :=
  hi.type?.nested

theorem type_atoms : KeepsAtoms (type inner) Expr.atoms := by
  intro c
  simp only [type, yields_bind]
  refine (type?_atoms hi c).mono fun t c₁ ht => ?_
  cases t <;> simp_all

theorem stmt_atoms : KeepsAtoms (stmt inner) Stmt.atoms :=
  hi.stmt.nested

/-! ## Types -/

theorem paramType_atoms : KeepsAtoms (paramType inner) Expr.atoms := by
  intro c
  simp [paramType]
  refine ⟨fun hdots => ?_, fun _ => type_atoms hi c⟩
  simpa [hdots] using type_atoms hi c.advance

/-- An instance holds the atoms of what was read before it. -/
theorem instantiated_atoms (start : Nat) (t : Expr) (c : Cursor) :
    Yields (instantiated inner start t) c fun x c' =>
      t.atoms ++ c.atoms = x.atoms ++ c'.atoms := by
  simp [instantiated]
  intro hopen
  refine (type_atoms hi _).mono fun first c₁ hfirst => ?_
  refine ((type_atoms hi).moreUntil c₁).mono fun others c₂ hothers hclose => ?_
  rw [← Cursor.atoms_advance (c := c) (by simp [hopen]), hfirst, hothers]
  cases others <;> simp [hclose, Expr.atomsAll_eq]

theorem typeName_atoms : KeepsAtoms (typeName inner) Expr.atoms := by
  intro c
  simp [typeName]
  refine (name_atoms c).mono fun n c₁ hn => ⟨fun hdot => ?_, fun _ => ?_⟩
  · refine (name_atoms _).mono fun member c₂ hmember => ?_
    refine (instantiated_atoms hi _ _ _).mono fun x c₃ hx => ?_
    simp_all
  · refine (instantiated_atoms hi _ _ _).mono fun x c₂ hx => ?_
    simp_all

theorem paramEntry_atoms : KeepsAtoms (paramEntry inner) ParamEntry.atoms := by
  intro c
  simp only [paramEntry, yields_bind, yields_here, yields_peek]
  split
  · simp only [yields_bind, yields_peekSecond]
    split
    · simpa [ParamEntry.atoms] using name_atoms c
    · simpa [ParamEntry.atoms] using name_atoms c
    · simpa [ParamEntry.atoms] using typeName_atoms hi c
    · simp [ParamEntry.atoms]
      refine (name_atoms c).mono fun n c₁ hn => ?_
      refine (paramType_atoms hi c₁).mono fun t c₂ ht => ?_
      simp_all
  · simpa [ParamEntry.atoms] using paramType_atoms hi c

theorem parameters_atoms : KeepsAtoms (parameters inner) Field.atomsAll := by
  intro c
  simp [parameters]
  intro hopen
  refine ((paramEntry_atoms hi).commaListUntil _).mono fun entries c₁ hentries hclose => ?_
  cases hgroup : groupParams entries with
  | error span => simp
  | ok fields =>
      simp
      refine yields_forM_makeExpr fun w _ => yields_mapM_makeField fun w _ => ?_
      simp_all [groupParams_atoms hgroup]

theorem results_atoms : KeepsAtoms (results inner) Field.atomsAll := by
  intro c
  simp [results]
  refine ⟨fun _ => parameters_atoms hi c, fun _ => (type?_atoms hi c).mono fun t c₁ ht => ?_⟩
  cases t <;> simp_all

theorem signature_atoms :
    KeepsAtoms (signature inner) fun s => Field.atomsAll s.1 ++ Field.atomsAll s.2 := by
  intro c
  simp [signature]
  refine (parameters_atoms hi c).mono fun params c₁ hparams => ?_
  refine (results_atoms hi c₁).mono fun results c₂ hresults => ?_
  simp_all

theorem funcType_atoms : KeepsAtoms (funcType inner) Expr.atoms := by
  intro c
  simp [funcType]
  intro hfunc
  refine (signature_atoms hi _).mono fun s c₁ hs => ?_
  simpa [hfunc] using hs

theorem arrayLength_atoms : KeepsAtoms (arrayLength inner) Expr.atomsOption := by
  intro c
  simp only [arrayLength, yields_bind, yields_peek]
  split
  · simp
  · simp_all
  · simpa using expr_atoms hi (c.withExprLevel (c.exprLevel + 1))

theorem arrayType_atoms : KeepsAtoms (arrayType inner) Expr.atoms := by
  intro c
  simp [arrayType]
  intro hopen
  refine (arrayLength_atoms hi _).mono fun length c₁ hlength hclose => ?_
  refine (type_atoms hi _).mono fun elem c₂ helem => ?_
  simp_all

omit hi in
theorem fieldNames_atoms : KeepsAtoms fieldNames fun names => names.map .name := by
  intro c
  simp only [fieldNames, yields_bind, yields_peek]
  split
  · simp
  · simp
    exact fun _ => nameList_atoms c
  · simp

theorem fieldDecl_atoms : KeepsAtoms (fieldDecl inner) Field.atoms := by
  intro c
  simp [fieldDecl]
  refine (fieldNames_atoms c).mono fun names c₁ hnames => ?_
  refine (type_atoms hi c₁).mono fun t c₂ ht => ?_
  refine (textLiteral?_atoms c₂).mono fun tag c₃ htag => ?_
  simp_all

theorem structType_atoms : KeepsAtoms (structType inner) Expr.atoms := by
  intro c
  simp [structType]
  intro hstruct hopen
  refine ((fieldDecl_atoms hi).endedListUntil _).mono fun fields c₁ hfields hclose => ?_
  simp_all [Field.atomsAll_eq]

theorem typeTerm_atoms : KeepsAtoms (typeTerm inner) Expr.atoms := by
  intro c
  simp [typeTerm]
  refine ⟨fun htilde => ?_, fun _ => type_atoms hi c⟩
  simpa [htilde] using type_atoms hi c.advance

theorem interfaceMethod_atoms : KeepsAtoms (interfaceMethod inner) Field.atoms := by
  intro c
  simp [interfaceMethod]
  refine (name_atoms c).mono fun n c₁ hn => ?_
  refine (signature_atoms hi c₁).mono fun s c₂ hs => ?_
  simp_all

theorem unionRound_atoms (start : Nat) (left : Expr) (c : Cursor) :
    Yields (unionRound inner start left) c fun x c' =>
      left.atoms ++ c.atoms = (x.getD left).atoms ++ c'.atoms := by
  simp [unionRound]
  intro hpipe hdepth
  refine (typeTerm_atoms hi _).mono fun right c₁ hright => ?_
  simp_all

theorem interfaceUnion_atoms : KeepsAtoms (interfaceUnion inner) Field.atoms := by
  intro c
  simp [interfaceUnion]
  refine (typeTerm_atoms hi c).mono fun first c₁ hfirst => ?_
  exact yields_extend hfirst fun left c₂ hleft => (unionRound_atoms hi _ left c₂).mono
    fun x c₃ hx => hleft.trans hx

theorem interfaceMember_atoms : KeepsAtoms (interfaceMember inner) Field.atoms := by
  intro c
  simp only [interfaceMember, yields_bind, yields_peek, yields_peekSecond]
  split
  · exact interfaceMethod_atoms hi c
  · exact interfaceUnion_atoms hi c

theorem interfaceType_atoms : KeepsAtoms (interfaceType inner) Expr.atoms := by
  intro c
  simp [interfaceType]
  intro hinterface hopen
  refine ((interfaceMember_atoms hi).endedListUntil _).mono fun members c₁ hmembers hclose => ?_
  simp_all [Field.atomsAll_eq]

/-! The productions below take their first token unseen; it is what told them apart. -/

theorem pointerType_atoms (hc : isFixed c.head.token) :
    Yields (pointerType inner) c fun x c' => c.atoms = x.atoms ++ c'.atoms := by
  simp [pointerType]
  simpa [hc] using type_atoms hi c.advance

theorem mapType_atoms (hc : isFixed c.head.token) :
    Yields (mapType inner) c fun x c' => c.atoms = x.atoms ++ c'.atoms := by
  simp [mapType]
  intro hopen
  refine (type_atoms hi _).mono fun key c₁ hkey hclose => ?_
  refine (type_atoms hi _).mono fun value c₂ hvalue => ?_
  simp_all

theorem chanType_atoms (hc : isFixed c.head.token) :
    Yields (chanType inner) c fun x c' => c.atoms = x.atoms ++ c'.atoms := by
  simp [chanType]
  refine ⟨fun harrow => ?_, fun _ => ?_⟩
  · simpa [hc, harrow] using type_atoms hi c.advance.advance
  · simpa [hc] using type_atoms hi c.advance

theorem receiveType_atoms (hc : isFixed c.head.token) :
    Yields (receiveType inner) c fun x c' => c.atoms = x.atoms ++ c'.atoms := by
  simp [receiveType]
  intro hchan
  simpa [hc, hchan] using type_atoms hi c.advance.advance

theorem parenType_atoms (hc : isFixed c.head.token) :
    Yields (parenType inner) c fun x c' => c.atoms = x.atoms ++ c'.atoms := by
  simp [parenType]
  refine (type_atoms hi _).mono fun t c₁ ht hclose => ?_
  simp_all

theorem typeHere?_atoms : KeepsAtoms (typeHere? inner) Expr.atomsOption := by
  intro c
  simp only [typeHere?, yields_bind, yields_peek]
  split <;> rename_i hc
  · simpa using typeName_atoms hi c
  · simpa using funcType_atoms hi c
  · simpa using arrayType_atoms hi c
  · simpa using structType_atoms hi c
  · simpa using interfaceType_atoms hi c
  · simpa using pointerType_atoms hi (by simp [hc])
  · simpa using mapType_atoms hi (by simp [hc])
  · simpa using chanType_atoms hi (by simp [hc])
  · simpa using receiveType_atoms hi (by simp [hc])
  · simpa using parenType_atoms hi (by simp [hc])
  · simp

end Productions

end GoGloss.Grammar
