import GoGloss.Proofs.Origins
import GoGloss.Proofs.Makes

/-!
# What the productions make

What a node is made of is known from the production that made it, so the ways of `Origin`
are gone through, once for all that is asked of a node by itself: that its operator takes
what it takes in Go, and that the members of an interface are methods or have no name.

A type is no operator between operands, and unless it starts with a star it is no
operator in front of one either, so that selectors, calls and indices may follow it. An
operator in front of an operand takes no operator between operands. Between operands the
precedences are climbed: a chain of operators ends in front of one that binds more
loosely than asked for, so the operator that comes next never binds more tightly than the
one the chain ended with.
-/

namespace GoGloss

/-- A method: one name, and a signature without `func`. -/
def Field.IsMethod (f : Field) : Prop :=
  ∃ name span params results, f.names = [name] ∧ f.type = .funcType span none params results

/-- If an expression is an interface, its members are methods or have no name. -/
def Expr.MembersFit : Expr → Prop
  | .interfaceType _ members => ∀ f ∈ members, f.names = [] ∨ f.IsMethod
  | _ => True

/-- An expression made well, with no operator outside that binds more loosely than `n`. -/
def Expr.FitsAt (n : Nat) (x : Expr) : Prop :=
  n ≤ x.tightness ∧ x.Fits ∧ x.MembersFit

theorem Expr.FitsAt.mono {m n : Nat} {x : Expr} (h : x.FitsAt n) (hmn : m ≤ n) : x.FitsAt m :=
  ⟨Nat.le_trans hmn h.1, h.2⟩

namespace Grammar

/-- An operator between operands that is ahead binds more loosely than `n`. -/
def Cursor.NextBelow (n : Nat) (c : Cursor) : Prop :=
  ∀ op, BinaryOp.ofToken? c.head.token = some op → op.precedence < n

/-- What the productions one level further in make fits, and binds as tightly as it must. -/
structure Inner.Groups (inner : Inner) : Prop where
  /-- No operator is left ahead that a binary expression could have taken. -/
  binary : ∀ least, least ≤ 6 → ∀ c, Yields (inner.binary least) c fun x c' =>
    x.FitsAt least ∧ c'.NextBelow least
  unary : Makes inner.unary (Expr.FitsAt 6)
  type? : ∀ c, Yields inner.type? c fun t _ =>
    ∀ x ∈ t, x.FitsAt (if c.head.token = .mark .star then 6 else 7)

section Productions

variable {inner : Inner}

/-! ## Types -/

theorem instantiated_groups {start : Nat} {t : Expr} (ht : t.FitsAt 7) :
    Makes (instantiated inner start t) (Expr.FitsAt 7) := by
  refine .andThen fun _ => .ite ?_ fun _ => yields_pure.mpr ht
  iterate 4 refine .andThen fun _ => ?_
  split <;> exact makes_makeExpr ⟨Nat.le_refl 7, ht.1, trivial⟩

theorem typeName_groups : Makes (typeName inner) (Expr.FitsAt 7) := by
  have hident : ∀ name, (Expr.ident name).FitsAt 7 := fun _ => ⟨Nat.le_refl 7, trivial, trivial⟩
  refine .andThen fun _ => .andThen fun name c => ?_
  simp only [yields_bind, yields_makeExpr, yields_eats]
  refine ⟨fun _ => ?_, fun _ => instantiated_groups (hident name) _⟩
  simp only [if_true, yields_bind, yields_spanFrom, yields_makeExpr]
  refine yields_true.mono fun _ _ _ => instantiated_groups ?_ _
  exact ⟨Nat.le_refl 7, Nat.le_refl 7, trivial⟩

theorem funcType_groups : Makes (funcType inner) (Expr.FitsAt 7) := by
  iterate 4 refine .andThen fun _ => ?_
  exact makes_makeExpr ⟨Nat.le_refl 7, trivial, trivial⟩

theorem interfaceMember_fits :
    Makes (interfaceMember inner) fun f => f.names = [] ∨ f.IsMethod := by
  intro c
  simp only [interfaceMember, yields_bind, yields_peek, yields_peekSecond]
  split
  · simp only [interfaceMethod, yields_bind, yields_here, yields_spanFrom, yields_makeExpr,
      yields_makeField]
    refine yields_true.mono fun name c₁ _ => yields_true.mono fun sig c₂ _ => ?_
    exact .inr ⟨name, _, _, _, rfl, rfl⟩
  · simp only [interfaceUnion, yields_bind, yields_here, yields_spanFrom, yields_makeField]
    exact yields_true.mono fun t _ _ => yields_true.mono fun _ _ _ => .inl trivial

theorem interfaceType_groups : Makes (interfaceType inner) (Expr.FitsAt 7) := by
  intro c
  simp only [interfaceType, yields_bind, yields_here, yields_discard, yields_expect,
    yields_spanFrom, yields_makeExpr]
  intro _ _
  refine (interfaceMember_fits.endedListUntil _).mono fun members c₁ hmembers _ => ?_
  exact ⟨Nat.le_refl 7, trivial, hmembers⟩

section

variable (hi : inner.Groups)
include hi

theorem type?_groups (c : Cursor) : Yields (type? inner) c fun t _ =>
    ∀ x ∈ t, x.FitsAt (if c.head.token = .mark .star then 6 else 7) := by
  rw [type?, yields_nested]
  exact fun _ => hi.type? _

theorem type_groups : Makes (type inner) (Expr.FitsAt 6) := by
  intro c
  simp only [type, yields_bind]
  refine (type?_groups hi c).mono fun t c₁ ht => ?_
  cases t with
  | some t => exact yields_pure.mpr ((ht t rfl).mono (by split <;> decide))
  | none => exact yields_failExpected

theorem typeHere?_groups (c : Cursor) : Yields (typeHere? inner) c fun t _ =>
    ∀ x ∈ t, x.FitsAt (if c.head.token = .mark .star then 6 else 7) := by
  have hmade : ∀ {p : Parser Expr}, c.head.token ≠ .mark .star → Makes p (Expr.FitsAt 7) →
      Yields (some <$> p) c fun t _ =>
        ∀ x ∈ t, x.FitsAt (if c.head.token = .mark .star then 6 else 7) := by
    intro p hstar hp
    rw [if_neg hstar]
    exact hp.some c
  simp only [typeHere?, yields_bind, yields_peek]
  split <;> rename_i htoken
  case h_3 | h_4 =>
    refine hmade (by simp [htoken]) ?_
    iterate 6 refine .andThen fun _ => ?_
    exact makes_makeExpr ⟨Nat.le_refl 7, trivial, trivial⟩
  case h_8 | h_9 | h_10 =>
    refine hmade (by simp [htoken]) ?_
    iterate 5 refine .andThen fun _ => ?_
    exact makes_makeExpr ⟨Nat.le_refl 7, trivial, trivial⟩
  · exact hmade (by simp [htoken]) typeName_groups
  · exact hmade (by simp [htoken]) funcType_groups
  · exact hmade (by simp [htoken]) interfaceType_groups
  · rw [if_pos htoken]
    simp only [pointerType, yields_map, yields_bind, yields_here, yields_take, yields_spanFrom,
      yields_makeExpr]
    exact (type_groups hi _).mono fun t _ ht => by simpa using ⟨Nat.le_refl 6, ht.1, trivial⟩
  · refine hmade (by simp [htoken]) ?_
    iterate 7 refine .andThen fun _ => ?_
    exact makes_makeExpr ⟨Nat.le_refl 7, trivial, trivial⟩
  · exact yields_pure.mpr (by simp)

theorem typeTerm_groups : Makes (typeTerm inner) (Expr.FitsAt 6) := by
  intro c
  simp only [typeTerm, yields_bind, yields_here, yields_eat]
  refine ⟨fun _ => ?_, fun _ => type_groups hi c⟩
  simp only [yields_spanFrom, yields_makeExpr]
  exact (type_groups hi _).mono fun t _ ht => ⟨Nat.le_refl 6, ht.1, trivial⟩

/-- The terms of a union are joined by an operator that binds more loosely than any of them. -/
theorem unionRound_groups {start : Nat} {left : Expr} (hleft : 4 ≤ left.tightness) :
    Makes (unionRound inner start left) fun t => ∀ x ∈ t, x.FitsAt 4 := by
  intro c
  simp only [unionRound, yields_bind, yields_isAt]
  split
  · simp only [yields_bind, yields_enter, yields_take, yields_spanFrom, yields_makeExpr,
      yields_pure]
    refine fun _ => (typeTerm_groups hi _).mono fun right _ hright x hx => ?_
    cases hx
    have htight : 4 < right.tightness := by
      have := hright.1
      omega
    exact ⟨Nat.le_refl 4, ⟨hleft, htight⟩, trivial⟩
  · exact yields_pure.mpr (by simp)

/-! ## Operands -/

/-- Where no star is ahead, an operand has no operator outside. -/
theorem operand_groups {c : Cursor} (hstar : c.head.token ≠ .mark .star) :
    Yields (operand inner) c fun x _ => x.FitsAt 7 := by
  simp only [operand, yields_bind, yields_peek]
  split
  · exact Makes.andThen (fun _ => makes_makeExpr ⟨Nat.le_refl 7, trivial, trivial⟩) c
  · have hparen : Makes (parenExpr inner) (Expr.FitsAt 7) := by
      iterate 5 refine .andThen fun _ => ?_
      exact makes_makeExpr ⟨Nat.le_refl 7, trivial, trivial⟩
    exact hparen c
  · rw [funcTypeOrLit, yields_bind, yields_here, yields_bind]
    refine (funcType_groups c).mono fun t c₁ ht => ?_
    refine (Makes.andThen fun _ => .ite ?_ fun _ => yields_pure.mpr ht) c₁
    iterate 2 refine .andThen fun _ => ?_
    exact makes_makeExpr ⟨Nat.le_refl 7, trivial, trivial⟩
  · exact Makes.andThen (fun _ => makes_makeExpr ⟨Nat.le_refl 7, trivial, trivial⟩) c
  · rw [yields_bind]
    refine (type?_groups hi c).mono fun t c₁ ht => ?_
    rw [if_neg hstar] at ht
    cases t with
    | some t => exact yields_pure.mpr (ht t rfl)
    | none => exact yields_failExpected

omit hi in
theorem postfixRound_groups {start : Nat} {x : Expr} (hx : x.FitsAt 7) :
    Makes (postfixRound inner start x) fun t => ∀ y ∈ t, y.FitsAt 7 := by
  have hnone : Makes (pure none) fun t : Option Expr => ∀ y ∈ t, y.FitsAt 7 :=
    fun _ => yields_pure.mpr (by simp)
  refine .andThen fun t => ?_
  split
  · refine .andThen fun _ => .some (.andThen fun _ => .andThen fun t => ?_)
    split
    · iterate 2 refine .andThen fun _ => ?_
      exact makes_makeExpr ⟨Nat.le_refl 7, hx.1, trivial⟩
    · refine .andThen fun _ => .andThen fun _ => .ite ?_ ?_
      all_goals
        iterate 3 refine .andThen fun _ => ?_
        exact makes_makeExpr ⟨Nat.le_refl 7, hx.1, trivial⟩
    · exact fun _ => yields_failExpected
  · refine .andThen fun _ => .some ?_
    iterate 4 refine .andThen fun _ => ?_
    split <;> first
      | exact makes_makeExpr ⟨Nat.le_refl 7, hx.1, trivial⟩
      | exact fun _ => yields_failAt
  · refine .andThen fun _ => .some ?_
    iterate 4 refine .andThen fun _ => ?_
    exact makes_makeExpr ⟨Nat.le_refl 7, hx.1, trivial⟩
  · refine .andThen fun _ => .ite (.andThen fun _ => .some ?_) hnone
    iterate 4 refine .andThen fun _ => ?_
    exact makes_makeExpr ⟨Nat.le_refl 7, trivial, trivial⟩
  · exact hnone

/-! ## Operators -/

theorem operandUnder_groups : Makes (operandUnder inner) (Expr.FitsAt 6) :=
  hi.unary.nested

theorem unary_groups : Makes (unary inner) (Expr.FitsAt 6) := by
  intro c
  simp only [unary, yields_bind, yields_peek]
  split
  · simp only [receiveExpr, yields_bind, yields_here, yields_take, yields_eats]
    refine ⟨fun _ => ?_, fun _ => ?_⟩
    · simp only [if_true, yields_bind, yields_spanFrom, yields_makeExpr]
      exact yields_true.mono fun _ _ _ => ⟨Nat.le_succ 6, trivial, trivial⟩
    · simp only [Bool.false_eq_true, if_false, yields_bind, yields_spanFrom, yields_makeExpr]
      exact (operandUnder_groups hi _).mono fun x _ hx => ⟨Nat.le_refl 6, hx.1, trivial⟩
  · simp only [starExpr, yields_bind, yields_here, yields_take, yields_spanFrom, yields_makeExpr]
    exact (operandUnder_groups hi _).mono fun x _ hx => ⟨Nat.le_refl 6, hx.1, trivial⟩
  · rename_i hstar
    split
    · simp only [unaryExpr, yields_bind, yields_here, yields_take, yields_spanFrom,
        yields_makeExpr]
      exact (operandUnder_groups hi _).mono fun x _ hx => ⟨Nat.le_refl 6, hx.1, trivial⟩
    · simp only [primary, yields_bind, yields_here]
      refine (operand_groups hi hstar).mono fun x c₁ hx => ?_
      refine (Makes.extend (fun y hy => postfixRound_groups hy) hx c₁).mono fun y _ hy => ?_
      exact hy.mono (by decide)

/--
An operator is taken only if it may have `left` on its left, and the one ahead
after it may have what was made of both. When none is taken, the one ahead binds
more loosely than `least`.
-/
theorem binaryRound_groups {least start : Nat} {left : Expr} {c : Cursor}
    (hnext : c.NextBelow (left.tightness + 1)) :
    Yields (binaryRound inner least start left) c fun x c' =>
      (x = none → c'.NextBelow least) ∧
      ∀ y, x = some y → y.FitsAt least ∧ c'.NextBelow (y.tightness + 1) := by
  simp only [binaryRound, yields_bind, yields_peek]
  split <;> rename_i hop
  · have hnone : c.NextBelow least := fun op hop' => by simp [hop] at hop'
    simp [hnone]
  · rename_i op
    simp
    refine ⟨fun hlow op' hop' => by simp_all, fun hhigh _ => ?_⟩
    have hlt := op.precedence_lt
    refine (hi.binary _ (by omega) _).mono fun right c₁ hright => ?_
    have hleft : op.precedence ≤ left.tightness := Nat.lt_succ_iff.mp (hnext op hop)
    exact ⟨⟨hhigh, ⟨hleft, hright.1.1⟩, trivial⟩, hright.2⟩

omit hi in
/-- Any operator between operands may have an operand with those in front of it on its left. -/
theorem Cursor.nextBelow_of_fitsAt {c : Cursor} {x : Expr} (hx : x.FitsAt 6) :
    c.NextBelow (x.tightness + 1) := by
  intro op _
  have := op.precedence_lt
  have := hx.1
  omega

theorem binary_groups (least : Nat) (hleast : least ≤ 6) (c : Cursor) :
    Yields (binary inner least) c fun x c' => x.FitsAt least ∧ c'.NextBelow least := by
  simp only [binary, yields_bind, yields_here]
  refine (unary_groups hi c).mono fun x c₁ hx => ?_
  refine yields_extend_until (I := fun x c' => x.FitsAt least ∧ c'.NextBelow (x.tightness + 1))
    ⟨hx.mono hleast, Cursor.nextBelow_of_fitsAt hx⟩ fun left c₂ hleft => ?_
  refine (binaryRound_groups hi hleft.2).mono fun y c₃ hy => ?_
  exact ⟨fun hnone => ⟨hleft.1, hy.1 hnone⟩, hy.2⟩

end

end Productions

/-! ## All levels -/

theorem inner_groups (n : Nat) : (inner n).Groups := by
  induction n with
  | zero =>
      exact ⟨fun _ _ _ => yields_failHere, fun _ => yields_failHere, fun _ => yields_failHere⟩
  | succ n ih => exact ⟨binary_groups ih, unary_groups ih, typeHere?_groups ih⟩

/-! ## Every expression with an origin -/

theorem Grown.fitsAt {round : Expr → Parser (Option Expr)} {m : Nat} {x y : Expr} {c c' : Cursor}
    (h : Grown round x c y c') (hx : x.FitsAt m)
    (hround : ∀ z, z.FitsAt m → Makes (round z) fun t => ∀ x ∈ t, x.FitsAt m) : y.FitsAt m := by
  induction h with
  | refl => exact hx
  | step _ hrun ih => exact hround _ ih _ _ _ hrun _ rfl

/-- What a production made fits, and so do its members. -/
theorem Origin.expr_fits {c c' : Cursor} {x : Expr} (h : Origin c x c') :
    x.Fits ∧ x.MembersFit := by
  cases h with
  | type h => exact (typeHere?_groups (inner_groups _) _ _ _ h _ rfl).2
  | union h hgrown =>
      have hterm := typeTerm_groups (inner_groups _) _ _ _ h
      exact (hgrown.fitsAt (hterm.mono (by decide))
        fun _ hz => unionRound_groups (inner_groups _) hz.1).2
  | operand hstart h hgrown =>
      have hstar : c.head.token ≠ .mark .star :=
        fun htoken => by simp [htoken, startsPrimary] at hstart
      exact (hgrown.fitsAt (operand_groups (inner_groups _) hstar _ _ h)
        fun _ => postfixRound_groups).2
  | @operator n least y x c₁ c₂ h hgrown =>
      have hunary := unary_groups (inner_groups _) _ _ _ h
      suffices (x.Fits ∧ x.MembersFit) ∧ c'.NextBelow (x.tightness + 1) from this.1
      clear h
      induction hgrown with
      | refl => exact ⟨hunary.2, Cursor.nextBelow_of_fitsAt hunary⟩
      | step _ hrun ih =>
          have hmade := (binaryRound_groups (inner_groups _) ih.2 _ _ hrun).2 _ rfl
          exact ⟨hmade.1.2, hmade.2⟩

end Grammar

end GoGloss
