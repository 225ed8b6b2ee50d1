import GoGloss.Proofs.Recursion.Tracks

/-!
# Types within the budget

The productions for types do the same when they are watched, if those they call do.
-/

namespace GoGloss.Grammar.Production

variable {α : Type} {ls : List Lexeme} {b n r : Nat}
  {call : ∀ {α : Type}, Production α → Parser α}

/-- A production that is watched does what it does, with one call for itself. -/
def Kept (ls : List Lexeme) (b n : Nat) (call : ∀ {α : Type}, Production α → Parser α)
    (p : Production α) : Prop :=
  ∀ c, TracksAt ls b n (p.rank - 1) (p.takes c) c (p.body .gaining call call)
    (p.body .plain (reader (inner n)) (within (inner n)))

section Productions

variable (h : Follows ls b call)
include h

/-! ## Levels -/

theorem expr_kept : expr.Kept ls b n call :=
  h.nested (binary 1) rfl (fun _ => rfl) rfl

theorem exprList_kept : exprList.Kept ls b n call :=
  (h.taking expr rfl rfl).commaRound.collect

theorem operandUnder_kept : operandUnder.Kept ls b n call :=
  h.nested unary rfl (fun _ => rfl) rfl

theorem type?_kept : type?.Kept ls b n call :=
  fun c => h.nestedAt typeHere? rfl (fun _ => rfl) c

/-- A type that is there was read from a token. -/
theorem tracks_type? (hrank : 1 ≤ r) : Tracks ls b n r (fun t => t.isSome) (call type?)
    (type?.reader (inner n)) :=
  fun c => h.at type? hrank c

theorem type_kept : type.Kept ls b n call := by
  refine (tracks_type? h (by decide)).bindOn (fun t _ => ?_) fun t ht => ?_
  · split
    · exact tracks_step
    · exact tracks_failExpected
  · cases t with
    | none => exact tracks_failExpected
    | some t => exact (ht rfl).elim

theorem stmt_kept : stmt.Kept ls b n call :=
  fun c => h.nestedAt stmtHere rfl (fun _ => rfl) c

omit h in
theorem nameList_kept : nameList.Kept ls b n call :=
  tracks_taking.commaRound.collect

/-! ## Signatures -/

theorem paramType_kept : paramType.Kept ls b n call := by
  refine tracks_step.bind fun pos => ?_
  split
  · exact h.taking type rfl rfl
  · exact (h.taking type rfl rfl).first fun _ => tracks_step

theorem instantiated_kept (start : Nat) (t : Expr) : (instantiated start t).Kept ls b n call := by
  refine tracks_step.bind fun _ => .ite ?_ tracks_step
  refine (h.calls type rfl).bind fun first => ?_
  refine (h.calls type rfl).moreRound.collect.bind fun others => ?_
  refine tracks_step.bind fun _ => tracks_step.bind fun span => ?_
  split
  · exact tracks_step
  · exact tracks_step

theorem typeName_kept : typeName.Kept ls b n call := by
  refine tracks_step.bind fun start => tracks_taking.first fun _ => tracks_step.bind fun t => ?_
  refine tracks_step.bind fun _ => .ite ?_ (h.calls (instantiated start t) rfl)
  refine tracks_step.bind fun member => tracks_step.bind fun _ => tracks_step.bind fun t => ?_
  exact h.calls (instantiated start t) rfl

theorem paramEntry_kept : paramEntry.Kept ls b n call := by
  refine tracks_step.bind fun start => tracks_step.bind fun t => ?_
  split
  · refine tracks_step.bind fun second => ?_
    split
    · exact tracks_taking.first fun _ => tracks_step
    · exact tracks_taking.first fun _ => tracks_step
    · exact (h.taking typeName rfl rfl).first fun _ => tracks_step
    · exact tracks_taking.first fun _ => (h.calls paramType rfl).bind fun _ => tracks_step
  · exact (h.taking paramType rfl rfl).first fun _ => tracks_step

theorem parameters_kept : parameters.Kept ls b n call := by
  refine tracks_taking.first fun _ => ?_
  refine (h.calls paramEntry rfl).commaUntilRound.collect.bind fun entries => ?_
  refine tracks_step.bind fun _ => ?_
  split
  · exact tracks_failAt Fault.noConfusion
  · exact tracks_step

theorem results_kept : results.Kept ls b n call := by
  refine tracks_step.bind fun _ => .ite (h.calls parameters rfl) (tracks_step.bind fun start => ?_)
  refine (h.calls type? rfl).bind fun t => ?_
  split
  · exact tracks_step
  · exact tracks_step

theorem signature_kept : signature.Kept ls b n call :=
  (h.taking parameters rfl rfl).first fun _ => (h.calls results rfl).bind fun _ => tracks_step

theorem funcType_kept : funcType.Kept ls b n call := by
  refine tracks_step.bind fun start => tracks_taking.first fun func => ?_
  exact (h.calls signature rfl).bind fun _ => tracks_step

/-! ## Composite types -/

theorem arrayLength_kept : arrayLength.Kept ls b n call := by
  refine tracks_step.bind fun t => ?_
  split
  · exact tracks_step
  · exact tracks_step
  · exact (h.calls expr rfl).bracketed.bind fun _ => tracks_step

theorem arrayType_kept : arrayType.Kept ls b n call := by
  refine tracks_step.bind fun start => tracks_taking.first fun _ => ?_
  refine (h.calls arrayLength rfl).bind fun length => tracks_step.bind fun _ => ?_
  exact (h.calls type rfl).bind fun _ => tracks_step

theorem fieldNames_kept : fieldNames.Kept ls b n call := by
  refine tracks_step.bind fun t => ?_
  split
  · exact tracks_step
  · exact tracks_step.bind fun _ => .ite tracks_step (h.calls nameList rfl)
  · exact tracks_failExpected

theorem fieldDecl_kept : fieldDecl.Kept ls b n call := by
  refine tracks_step.bind fun start => (h.calls fieldNames rfl).bind fun names => ?_
  exact (h.taking type rfl rfl).first fun _ => tracks_step

theorem structType_kept : structType.Kept ls b n call := by
  refine tracks_step.bind fun start => tracks_taking.first fun _ => tracks_step.bind fun _ => ?_
  exact (h.taking fieldDecl rfl rfl).endedRound.collect.bind fun _ => tracks_step

theorem typeTerm_kept : typeTerm.Kept ls b n call := by
  refine tracks_step.bind fun start => tracks_step.bind fun opPos => ?_
  split
  · exact h.taking type rfl rfl
  · exact (h.taking type rfl rfl).first fun _ => tracks_step

theorem interfaceMethod_kept : interfaceMethod.Kept ls b n call := by
  refine tracks_step.bind fun start => tracks_taking.first fun name => tracks_step.bind fun _ => ?_
  exact (h.calls signature rfl).bind fun _ => tracks_step

theorem interfaceUnion_kept : interfaceUnion.Kept ls b n call := by
  refine tracks_step.bind fun start => (h.taking typeTerm rfl rfl).first fun term => ?_
  refine (Tracks.extend (fun left => ?_) term).bind fun _ => tracks_step
  refine tracks_step.bind fun _ => .ite ?_ (tracks_pure (by simp))
  refine tracks_step.bind fun _ => tracks_step.bind fun opPos => ?_
  exact (h.taking typeTerm rfl rfl).first fun _ => tracks_step

theorem interfaceMember_kept : interfaceMember.Kept ls b n call := by
  refine tracks_step.bind fun t => tracks_step.bind fun second => ?_
  split
  · exact h.taking interfaceMethod rfl rfl
  · exact h.taking interfaceUnion rfl rfl

theorem interfaceType_kept : interfaceType.Kept ls b n call := by
  refine tracks_step.bind fun start => tracks_taking.first fun _ => tracks_step.bind fun _ => ?_
  exact (h.taking interfaceMember rfl rfl).endedRound.collect.bind fun _ => tracks_step

theorem pointerType_kept : pointerType.Kept ls b n call := by
  refine tracks_step.bind fun start => tracks_step.bind fun pos => ?_
  exact (h.taking type rfl rfl).first fun _ => tracks_step

theorem mapType_kept : mapType.Kept ls b n call := by
  refine tracks_step.bind fun start => tracks_step.bind fun _ => tracks_taking.first fun _ => ?_
  refine (h.calls type rfl).bind fun key => tracks_step.bind fun _ => ?_
  exact (h.calls type rfl).bind fun _ => tracks_step

theorem chanType_kept : chanType.Kept ls b n call := by
  refine tracks_step.bind fun start => tracks_step.bind fun _ => tracks_step.bind fun eaten => ?_
  exact (h.taking type rfl rfl).first fun _ => tracks_step

theorem receiveType_kept : receiveType.Kept ls b n call := by
  refine tracks_step.bind fun start => tracks_step.bind fun _ => tracks_taking.first fun _ => ?_
  exact (h.calls type rfl).bind fun _ => tracks_step

theorem parenType_kept : parenType.Kept ls b n call := by
  refine tracks_step.bind fun start => tracks_step.bind fun lparen => ?_
  exact (h.taking type rfl rfl).first fun _ => tracks_step

theorem typeHere?_kept : typeHere?.Kept ls b n call := by
  refine tracks_step.bind fun t => ?_
  split
  · exact (h.taking typeName rfl rfl).map fun _ _ => trivial
  · exact (h.taking funcType rfl rfl).map fun _ _ => trivial
  · exact (h.taking arrayType rfl rfl).map fun _ _ => trivial
  · exact (h.taking structType rfl rfl).map fun _ _ => trivial
  · exact (h.taking interfaceType rfl rfl).map fun _ _ => trivial
  · exact (h.taking pointerType rfl rfl).map fun _ _ => trivial
  · exact (h.taking mapType rfl rfl).map fun _ _ => trivial
  · exact (h.taking chanType rfl rfl).map fun _ _ => trivial
  · exact (h.taking receiveType rfl rfl).map fun _ _ => trivial
  · exact (h.taking parenType rfl rfl).map fun _ _ => trivial
  · exact tracks_pure (by simp)

end Productions

end GoGloss.Grammar.Production
