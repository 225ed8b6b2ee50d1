import GoGloss.Proofs.NestingBound.Basic

/-!
# The calls for a type

A type read with `s` levels left takes at most `typeCalls s` calls. The unions of
an interface are the only types that keep levels: a union is a chain of operators,
and the members after it have fewer levels left.
-/

namespace GoGloss.Grammar

section Productions

variable {inner : Inner} (hi : inner.CallsBounded)
include hi

theorem paramType_calls : CallsWithin (paramType inner) Expr.calls paramCalls := by
  intro c s hs
  simp [paramType]
  refine ⟨fun _ => ?_, fun _ => ?_⟩
  · refine (type_calls hi).yields hs fun t c₁ hs₁ ht => ?_
    refine ⟨hs₁, ?_⟩
    simp only [Expr.calls, Expr.callsOption, paramCalls]
    omega
  · refine (type_calls hi).yields hs fun t c₁ hs₁ ht => ?_
    refine ⟨hs₁, ?_⟩
    simp only [paramCalls]
    omega

/-- What may be instantiated is an identifier or a selector on one. -/
theorem instantiated_calls (start : Nat) {t : Expr} (ht : t.calls ≤ 2) :
    CallsWithin (instantiated inner start t) Expr.calls paramCalls := by
  intro c s hs
  simp [instantiated]
  refine ⟨fun _ => ?_, fun _ => ⟨hs, by simp only [paramCalls]; omega⟩⟩
  refine (type_calls hi).yields hs fun first c₁ hs₁ hfirst => ?_
  refine ((type_calls hi).moreUntil hs₁).mono ?_
  rintro others c₂ ⟨hs₂, hothers⟩ _
  have hpos := pos_of_calls_le hfirst
  have := three_le_typeCalls (s - 1)
  rw [Nat.sub_add_cancel hpos] at this
  have hall := callsAll_le hothers
  cases others with
  | nil =>
      simp only [yields_makeExpr, Expr.calls, paramCalls]
      exact ⟨hs₂, by omega⟩
  | cons second others =>
      simp only [yields_makeExpr, Expr.calls, Expr.callsAll, paramCalls] at hall ⊢
      exact ⟨hs₂, by omega⟩

theorem typeName_calls : CallsWithin (typeName inner) Expr.calls paramCalls := by
  intro c s hs
  simp [typeName]
  refine yields_name_depth fun n c₁ hd₁ => ⟨fun _ => ?_, fun _ => ?_⟩
  · refine yields_name_depth fun member c₂ hd₂ => ?_
    refine instantiated_calls hi _ (by simp [Expr.calls]) _ s ?_
    simp_all
  · refine instantiated_calls hi _ (by simp [Expr.calls]) _ s ?_
    simp_all

theorem paramEntry_calls : CallsWithin (paramEntry inner) ParamEntry.calls paramCalls := by
  intro c s hs
  have hbare : ∀ n : Name, (ParamEntry.bare n).calls ≤ paramCalls s := fun n => by
    simp only [ParamEntry.calls, paramCalls]
    omega
  simp only [paramEntry, yields_bind, yields_here, yields_peek]
  split
  · simp only [yields_bind, yields_peekSecond]
    split
    · exact yields_bind.mpr (yields_name_depth fun n c₁ hd => by simp [hd, hs, hbare])
    · exact yields_bind.mpr (yields_name_depth fun n c₁ hd => by simp [hd, hs, hbare])
    · simpa [ParamEntry.calls] using typeName_calls hi c s hs
    · simp [ParamEntry.calls]
      exact yields_name_depth fun n c₁ hd => paramType_calls hi c₁ s (by omega)
  · simpa [ParamEntry.calls] using paramType_calls hi c s hs

theorem parameters_calls : CallsWithin (parameters inner) Field.callsAll paramCalls := by
  intro c s hs
  simp [parameters]
  intro _
  refine ((paramEntry_calls hi).commaListUntil (c := c.advance) hs).mono fun entries c₁ hgot _ => ?_
  obtain ⟨hs₁, hentries⟩ := hgot
  cases hgroup : groupParams entries with
  | error span => simp
  | ok fields =>
      simp only [yields_bind]
      exact yields_forM_makeExpr fun _ _ => yields_mapM_makeField fun _ _ =>
        ⟨hs₁, groupParams_calls hentries hgroup⟩

theorem results_calls : CallsWithin (results inner) Field.callsAll paramCalls := by
  intro c s hs
  simp [results]
  refine ⟨fun _ => parameters_calls hi c s hs, fun _ => ?_⟩
  refine (type?_calls hi).yields hs fun t c₁ hs₁ ht => ?_
  cases t with
  | none => simp [Field.callsAll, hs₁]
  | some t =>
      simp only [Expr.callsOption] at ht
      simp [Field.callsAll, Field.calls, hs₁, paramCalls]
      omega

theorem signature_calls : CallsWithin (signature inner)
    (fun sig => max (Field.callsAll sig.1) (Field.callsAll sig.2)) paramCalls := by
  intro c s hs
  simp only [signature, yields_bind, yields_pure]
  refine (parameters_calls hi).yields hs fun params c₁ hs₁ hparams => ?_
  refine (results_calls hi).yields hs₁ fun results c₂ hs₂ hresults => ?_
  exact ⟨hs₂, Nat.max_le.mpr ⟨hparams, hresults⟩⟩

theorem funcType_calls : CallsWithin (funcType inner) Expr.calls (paramCalls · + 1) := by
  intro c s hs
  simp [funcType]
  intro _
  refine (signature_calls hi).yields hs fun sig c₁ hs₁ hsig => ?_
  refine ⟨hs₁, ?_⟩
  simpa [Expr.calls] using hsig

theorem arrayLength_calls : CallsWithin (arrayLength inner) Expr.callsOption fun s =>
    max 1 (exprCalls s) := by
  intro c s hs
  simp only [arrayLength, yields_bind, yields_peek]
  split
  · simp [Expr.callsOption, hs]
  · simp only [yields_bind, yields_take, yields_makeExpr, yields_pure, Expr.callsOption, Expr.calls]
    exact ⟨hs, Nat.le_max_left _ _⟩
  · simp [Expr.callsOption]
    refine (expr_calls hi).yields hs fun x c₁ hs₁ hx => ?_
    exact ⟨hs₁, by omega⟩

/-- What is no more than a type inside, and one call. -/
theorem type_calls_succ {c : Cursor} {s : Nat} (hs : c.depth + s = maxDepth) :
    Yields (type inner) c fun t c' =>
      c'.depth + s = maxDepth ∧ t.calls + 1 ≤ typeCalls (s + 1) :=
  (type_calls hi c s hs).mono fun _ _ hgot =>
    ⟨hgot.1, Nat.lt_of_le_of_lt hgot.2 (lt_typeCalls_succ s).1⟩

theorem arrayType_calls : CallsWithin (arrayType inner) Expr.calls (typeCalls <| · + 1) := by
  intro c s hs
  simp [arrayType]
  intro _
  refine (arrayLength_calls hi).yields hs fun length c₁ hs₁ hlength _ => ?_
  refine (type_calls_succ hi (c := c₁.advance) hs₁).mono fun elem c₂ ⟨hs₂, helem⟩ => ?_
  refine ⟨hs₂, ?_⟩
  have := lt_typeCalls_succ s
  have := three_le_typeCalls s
  simp only [Expr.calls] at hlength ⊢
  omega

omit hi in
theorem yields_fieldNames_depth {c : Cursor} {post : List Name → Cursor → Prop}
    (h : ∀ names c', c'.depth = c.depth → post names c') : Yields fieldNames c post := by
  simp only [fieldNames, yields_bind, yields_peek]
  split
  · exact yields_pure.mpr (h _ _ rfl)
  · rw [yields_bind, yields_peekSecond, yields_ite]
    exact ⟨fun _ => yields_pure.mpr (h _ _ rfl), fun _ => yields_nameList_depth h⟩
  · simp

theorem fieldDecl_calls : CallsWithin (fieldDecl inner) Field.calls typeCalls := by
  intro c s hs
  simp [fieldDecl]
  refine yields_fieldNames_depth fun names c₁ hd₁ => ?_
  refine (type_calls hi).yields (s := s) (by omega) fun t c₂ hs₂ ht => ?_
  refine yields_textLiteral?_depth fun tag c₃ hd₃ => ?_
  exact ⟨by omega, ht⟩

theorem structType_calls : CallsWithin (structType inner) Expr.calls (typeCalls <| · + 1) := by
  intro c s hs
  simp [structType]
  intro _ _
  refine ((fieldDecl_calls hi).endedListUntil (c := c.advance.advance) hs).mono
    fun fields c₁ ⟨hs₁, hfields⟩ _ => ?_
  refine ⟨hs₁, ?_⟩
  have := fieldCallsAll_le hfields
  have := lt_typeCalls_succ s
  simp only [Expr.calls]
  omega

theorem typeTerm_calls {c : Cursor} {s : Nat} (hs : c.depth + s = maxDepth) :
    Yields (typeTerm inner) c fun t c' =>
      c'.depth + s = maxDepth ∧ 0 < s ∧ t.calls ≤ typeCalls s + 1 := by
  simp [typeTerm]
  refine ⟨fun _ => ?_, fun _ => ?_⟩
  · refine (type_calls hi).yields hs fun t c₁ hs₁ ht => ?_
    exact ⟨hs₁, pos_of_calls_le ht, by simpa [Expr.calls] using ht⟩
  · refine (type_calls hi).yields hs fun t c₁ hs₁ ht => ?_
    exact ⟨hs₁, pos_of_calls_le ht, by omega⟩

omit hi in
/--
A union of `k + 1` terms takes `k` levels, which it keeps. Its last term had a
level to be read on, so `k` is less than the levels there were.
-/
def UnionBound (d s : Nat) (x : Expr) (c : Cursor) : Prop :=
  ∃ k < s, c.depth = d + k ∧ x.calls ≤ typeCalls s + 1 + k

theorem unionRound_calls {d s : Nat} (hs : d + s = maxDepth) (start : Nat) {left : Expr}
    {c : Cursor} (hleft : UnionBound d s left c) :
    Yields (unionRound inner start left) c fun x c' => UnionBound d s (x.getD left) c' := by
  obtain ⟨k, hk, hd, hcalls⟩ := hleft
  simp [unionRound]
  refine ⟨fun _ hdepth => ?_, fun _ => ⟨k, hk, hd, hcalls⟩⟩
  refine (typeTerm_calls hi (s := s - (k + 1)) (by simp; omega)).mono fun right c₁ hgot => ?_
  obtain ⟨hs₁, hpos, hright⟩ := hgot
  refine ⟨k + 1, by omega, by simp; omega, ?_⟩
  have := typeCalls_mono (Nat.sub_le s (k + 1))
  simp only [Expr.calls]
  omega

/-- Each union of an interface keeps its levels, so the later members have fewer left. -/
theorem interfaceUnion_calls {d s : Nat} (hs : d + s = maxDepth) {c : Cursor}
    (hc : d ≤ c.depth ∧ c.depth ≤ maxDepth) :
    Yields (interfaceUnion inner) c fun f c' =>
      (d ≤ c'.depth ∧ c'.depth ≤ maxDepth) ∧ f.callsMember + 1 ≤ typeCalls (s + 1) := by
  simp [interfaceUnion]
  obtain ⟨r, hr⟩ : ∃ r, c.depth + r = maxDepth := ⟨maxDepth - c.depth, by omega⟩
  refine (typeTerm_calls hi hr).mono fun first c₁ hgot => ?_
  obtain ⟨hs₁, hpos, hfirst⟩ := hgot
  refine (yields_extend (I := UnionBound c.depth r) ⟨0, hpos, by omega, by omega⟩
    fun left c₂ hleft => unionRound_calls hi hr _ hleft).mono fun x c₂ ⟨k, hk, hd, hx⟩ => ?_
  refine ⟨⟨by omega, by omega⟩, ?_⟩
  have hmember := callsMember_le ⟨c₂.spanFrom c.head.start, [], x, none⟩
  have hmono := typeCalls_mono (show r + 1 ≤ s + 1 by omega)
  rw [typeCalls_succ hpos] at hmono
  simp only at hmember
  omega

theorem interfaceMethod_calls {d s : Nat} (hs : d + s = maxDepth) {c : Cursor}
    (hc : d ≤ c.depth ∧ c.depth ≤ maxDepth) :
    Yields (interfaceMethod inner) c fun f c' =>
      (d ≤ c'.depth ∧ c'.depth ≤ maxDepth) ∧ f.callsMember + 1 ≤ typeCalls (s + 1) := by
  simp [interfaceMethod]
  obtain ⟨r, hr⟩ : ∃ r, c.depth + r = maxDepth := ⟨maxDepth - c.depth, by omega⟩
  refine yields_name_depth fun n c₁ hd₁ => ?_
  refine (signature_calls hi).yields (s := r) (by omega) fun sig c₂ hs₂ hsig => ?_
  refine ⟨⟨by omega, by omega⟩, ?_⟩
  have := (lt_typeCalls_succ r).2.1
  have := typeCalls_mono (show r + 1 ≤ s + 1 by omega)
  simp only [Field.callsMember] at hsig ⊢
  omega

theorem interfaceMember_calls {d s : Nat} (hs : d + s = maxDepth) {c : Cursor}
    (hc : d ≤ c.depth ∧ c.depth ≤ maxDepth) :
    Yields (interfaceMember inner) c fun f c' =>
      (d ≤ c'.depth ∧ c'.depth ≤ maxDepth) ∧ f.callsMember + 1 ≤ typeCalls (s + 1) := by
  simp only [interfaceMember, yields_bind, yields_peek, yields_peekSecond]
  split
  · exact interfaceMethod_calls hi hs hc
  · exact interfaceUnion_calls hi hs hc

theorem interfaceType_calls {c : Cursor} {s : Nat} (hs : c.depth + s = maxDepth) :
    Yields (interfaceType inner) c fun x _ => x.calls ≤ typeCalls (s + 1) := by
  simp [interfaceType]
  intro _ _
  have hlevels : c.depth ≤ c.advance.advance.depth ∧ c.advance.advance.depth ≤ maxDepth :=
    ⟨Nat.le_refl _, by simp; omega⟩
  refine (yields_endedListUntil (I := fun c' => c.depth ≤ c'.depth ∧ c'.depth ≤ maxDepth)
    (fun _ hc => hc) (fun _ hc => interfaceMember_calls hi hs hc) hlevels).mono
    fun members c₁ ⟨_, hmembers⟩ _ => ?_
  have hpos := three_le_typeCalls s
  have : Field.callsMembers members ≤ typeCalls (s + 1) - 1 :=
    callsMembers_le fun f hf => by have := hmembers f hf; omega
  simp only [Expr.calls]
  omega

theorem pointerType_calls : CallsWithin (pointerType inner) Expr.calls (typeCalls <| · + 1) := by
  intro c s hs
  simp [pointerType, Expr.calls]
  exact type_calls_succ hi (c := c.advance) hs

theorem mapType_calls : CallsWithin (mapType inner) Expr.calls (typeCalls <| · + 1) := by
  intro c s hs
  simp [mapType]
  intro _
  refine (type_calls_succ hi (c := c.advance.advance) hs).mono fun key c₁ hgot _ => ?_
  obtain ⟨hs₁, hkey⟩ := hgot
  refine (type_calls_succ hi (c := c₁.advance) hs₁).mono fun value c₂ ⟨hs₂, hvalue⟩ => ?_
  refine ⟨hs₂, ?_⟩
  simp only [Expr.calls]
  omega

theorem chanType_calls : CallsWithin (chanType inner) Expr.calls (typeCalls <| · + 1) := by
  intro c s hs
  simp [chanType, Expr.calls]
  exact ⟨fun _ => type_calls_succ hi (c := c.advance.advance) hs,
    fun _ => type_calls_succ hi (c := c.advance) hs⟩

theorem receiveType_calls : CallsWithin (receiveType inner) Expr.calls (typeCalls <| · + 1) := by
  intro c s hs
  simp [receiveType, Expr.calls]
  exact fun _ => type_calls_succ hi (c := c.advance.advance) hs

theorem parenType_calls : CallsWithin (parenType inner) Expr.calls (typeCalls <| · + 1) := by
  intro c s hs
  simp [parenType, Expr.calls]
  exact (type_calls_succ hi (c := c.advance) hs).mono fun _ _ ht _ => ht

theorem typeHere?_calls (c : Cursor) (s : Nat) (hs : c.depth + s = maxDepth) :
    Yields (typeHere? inner) c fun t _ => Expr.callsOption t ≤ typeCalls (s + 1) := by
  have hparam := (lt_typeCalls_succ s).2.1
  simp only [typeHere?, yields_bind, yields_peek]
  split <;> simp only [yields_map, yields_pure, Expr.callsOption]
  · exact (typeName_calls hi).le hs (by omega)
  · exact (funcType_calls hi).le hs hparam
  · exact (arrayType_calls hi).le hs (Nat.le_refl _)
  · exact (structType_calls hi).le hs (Nat.le_refl _)
  · exact interfaceType_calls hi hs
  · exact (pointerType_calls hi).le hs (Nat.le_refl _)
  · exact (mapType_calls hi).le hs (Nat.le_refl _)
  · exact (chanType_calls hi).le hs (Nat.le_refl _)
  · exact (receiveType_calls hi).le hs (Nat.le_refl _)
  · exact (parenType_calls hi).le hs (Nat.le_refl _)
  · exact Nat.zero_le _

end Productions

end GoGloss.Grammar
