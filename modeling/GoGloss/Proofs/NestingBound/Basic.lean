import GoGloss.Proofs.Calls
import GoGloss.Proofs.Yields

/-!
# Calls and levels

A level that `nested` enters is given back, and the node it was entered for lies
inside another one; a level that a chain of operators enters is kept to the end of
the chain, and every operator puts one more node on top of what is there. So with
`s` levels left at most `s` operators can be stacked, on an operand that may have
been read with nearly as many levels itself. The calls it takes to say such an
expression grow like the sum of the levels, not like their number.

`typeCalls`, `paramCalls`, `operandCalls` and `exprCalls` are these bounds.
`CallsWithin` says that a reader stays within one and gives its levels back, and
`CallsClimb` that it keeps a level for each node it puts on top.
-/

namespace GoGloss.Grammar

/-! ## The bounds -/

/-- The most calls for a type read with `s` levels left; none can be read with none left. -/
def typeCalls : Nat → Nat
  | 0 => 0
  | 1 => 3
  | s + 2 => typeCalls (s + 1) + (s + 2)

/-- The most calls for the type of a parameter. -/
def paramCalls (s : Nat) : Nat :=
  max 2 (typeCalls s + 1)

/-- The most calls for an expression: all levels go into operators on top of an operand. -/
def exprCalls : Nat → Nat
  | 0 => 0
  | s + 1 => s + max (exprCalls s + 1) (paramCalls s + 2)

/-- The most calls for an operand without the operators around it. -/
def operandCalls (s : Nat) : Nat :=
  max (exprCalls s + 1) (paramCalls s + 2)

theorem exprCalls_succ (s : Nat) : exprCalls (s + 1) = s + operandCalls s := rfl

theorem typeCalls_succ {s : Nat} (h : 0 < s) : typeCalls (s + 1) = typeCalls s + s + 1 := by
  obtain ⟨s, rfl⟩ : ∃ n, s = n + 1 := ⟨s - 1, by omega⟩
  rw [typeCalls]
  omega

theorem three_le_typeCalls (s : Nat) : 3 ≤ typeCalls (s + 1) := by
  induction s with
  | zero => exact Nat.le_refl 3
  | succ s ih =>
      rw [typeCalls]
      omega

/-- A type that was read had a level to be read on. -/
theorem pos_of_calls_le {s : Nat} {t : Expr} (h : t.calls ≤ typeCalls s) : 0 < s := by
  have := t.calls_pos
  rcases Nat.eq_zero_or_pos s with rfl | hs
  · rw [typeCalls] at h
    omega
  · exact hs

theorem exprCalls_eq (s : Nat) : exprCalls s = typeCalls s + min s 2 := by
  induction s with
  | zero => rfl
  | succ s ih =>
      rw [exprCalls_succ, operandCalls, paramCalls, ih]
      rcases Nat.eq_zero_or_pos s with rfl | hs
      · rfl
      · have hsucc := typeCalls_succ hs
        obtain ⟨n, rfl⟩ : ∃ n, s = n + 1 := ⟨s - 1, by omega⟩
        have := three_le_typeCalls n
        omega

theorem typeCalls_le_succ (s : Nat) : typeCalls s ≤ typeCalls (s + 1) := by
  rcases Nat.eq_zero_or_pos s with rfl | hs
  · exact Nat.zero_le _
  · rw [typeCalls_succ hs]
    omega

theorem typeCalls_mono {r s : Nat} (h : r ≤ s) : typeCalls r ≤ typeCalls s := by
  induction h with
  | refl => exact Nat.le_refl _
  | step _ ih => exact Nat.le_trans ih (typeCalls_le_succ _)

theorem operandCalls_le_succ (s : Nat) : operandCalls s ≤ operandCalls (s + 1) := by
  have := typeCalls_le_succ s
  simp only [operandCalls, paramCalls, exprCalls_eq]
  omega

theorem operandCalls_mono {r s : Nat} (h : r ≤ s) : operandCalls r ≤ operandCalls s := by
  induction h with
  | refl => exact Nat.le_refl _
  | step _ ih => exact Nat.le_trans ih (operandCalls_le_succ _)

theorem exprCalls_lt_operandCalls (s : Nat) : exprCalls s < operandCalls s := by
  unfold operandCalls
  omega

theorem typeCalls_lt_operandCalls (s : Nat) : typeCalls s < operandCalls s := by
  unfold operandCalls paramCalls
  omega

/-- A type holds what can be read with one level less. -/
theorem typeCalls_le_exprCalls (s : Nat) : typeCalls s ≤ exprCalls s := by
  rw [exprCalls_eq]
  omega

theorem lt_typeCalls_succ (s : Nat) :
    typeCalls s < typeCalls (s + 1) ∧ paramCalls s < typeCalls (s + 1) ∧
      exprCalls s < typeCalls (s + 1) := by
  rw [exprCalls_eq, paramCalls]
  rcases Nat.eq_zero_or_pos s with rfl | hs
  · decide
  · have := three_le_typeCalls (s - 1)
    rw [Nat.sub_add_cancel hs] at this
    rw [typeCalls_succ hs]
    omega

/-! ## Calls of lists -/

/-- A maximum over a list is bounded if all its items are. -/
theorem le_of_forall_mem {α : Type} {f : α → Nat} {g : List α → Nat} (hnil : g [] = 0)
    (hcons : ∀ a as, g (a :: as) = max (f a) (g as)) {as : List α} {n : Nat}
    (h : ∀ a ∈ as, f a ≤ n) : g as ≤ n := by
  induction as with
  | nil => omega
  | cons a as ih =>
      rw [hcons, Nat.max_le]
      exact ⟨h a (by simp), ih fun b hb => h b (by simp [hb])⟩

theorem callsAll_le {xs : List Expr} {n : Nat} (h : ∀ x ∈ xs, x.calls ≤ n) :
    Expr.callsAll xs ≤ n :=
  le_of_forall_mem Expr.callsAll.eq_1 Expr.callsAll.eq_2 h

theorem fieldCallsAll_le {fs : List Field} {n : Nat} (h : ∀ f ∈ fs, f.calls ≤ n) :
    Field.callsAll fs ≤ n :=
  le_of_forall_mem Field.callsAll.eq_1 Field.callsAll.eq_2 h

theorem callsMembers_le {fs : List Field} {n : Nat} (h : ∀ f ∈ fs, f.callsMember ≤ n) :
    Field.callsMembers fs ≤ n :=
  le_of_forall_mem Field.callsMembers.eq_1 Field.callsMembers.eq_2 h

/-- A member takes no more calls than its type. -/
theorem callsMember_le (f : Field) : f.callsMember ≤ f.type.calls := by
  obtain ⟨span, names, type, tag⟩ := f
  cases type <;> simp [Field.callsMember, Expr.calls]

/-- The calls for an entry of a parameter list; a lone identifier may turn out to be a type. -/
def ParamEntry.calls : ParamEntry → Nat
  | .bare _ => 1
  | .typed _ type _ => type.calls

/-- The fields of a parameter list take no more calls than its entries. -/
theorem groupParams_calls {entries : List ParamEntry} {fields : List Field} {n : Nat}
    (hentries : ∀ e ∈ entries, e.calls ≤ n) (h : groupParams entries = .ok fields) :
    Field.callsAll fields ≤ n := by
  refine fieldCallsAll_le fun f hf => ?_
  obtain ⟨e, he, htype⟩ := groupParams_type h f hf
  obtain ⟨_, _, t, _⟩ := f
  obtain rfl : t = e.unnamedField.type := htype
  cases e <;> exact hentries _ he

/-! ## Readers within a bound -/

variable {α : Type}

/--
With `s` levels left the reader returns something that takes at most `bound s`
calls, and it gives back all levels it enters.
-/
def CallsWithin (p : Parser α) (calls : α → Nat) (bound : Nat → Nat) : Prop :=
  ∀ c s, c.depth + s = maxDepth → Yields p c fun a c' =>
    c'.depth + s = maxDepth ∧ calls a ≤ bound s

/--
An operand under at most `k` operators, for which `k` of the `s` levels that were
left at depth `d` are entered.
-/
def Climbed (d s : Nat) (x : Expr) (c : Cursor) : Prop :=
  ∃ k ≤ s, c.depth = d + k ∧ x.calls ≤ k + operandCalls s

/-- One more level is entered and one more node put on top. -/
theorem Climbed.step {d s n : Nat} {x y : Expr} {c c' : Cursor} (hx : Climbed d s x c)
    (hs : d + s = maxDepth) (hn : c.depth + 1 + n = maxDepth) (hn' : c'.depth + n = maxDepth)
    (hy : y.calls ≤ max (x.calls + 1) (operandCalls n)) : Climbed d s y c' := by
  obtain ⟨k, hk, hd, hcalls⟩ := hx
  have := operandCalls_mono (show n ≤ s by omega)
  exact ⟨k + 1, by omega, by omega, by omega⟩

/-- The reader keeps the levels it enters, and returns an operand under as many operators. -/
def CallsClimb (p : Parser Expr) : Prop :=
  ∀ c s, c.depth + s = maxDepth → Yields p c (Climbed c.depth s)

theorem CallsWithin.le {p : Parser α} {calls : α → Nat} {bound : Nat → Nat} {c : Cursor} {s n : Nat}
    (h : CallsWithin p calls bound) (hs : c.depth + s = maxDepth) (hn : bound s ≤ n) :
    Yields p c fun a _ => calls a ≤ n :=
  (h c s hs).mono fun _ _ hgot => Nat.le_trans hgot.2 hn

/-- What is known behind a reader that stays within a bound. -/
theorem CallsWithin.yields {p : Parser α} {calls : α → Nat} {bound : Nat → Nat} {c : Cursor}
    {s : Nat} {post : α → Cursor → Prop} (h : CallsWithin p calls bound)
    (hs : c.depth + s = maxDepth)
    (hpost : ∀ a c', c'.depth + s = maxDepth → calls a ≤ bound s → post a c') : Yields p c post :=
  (h c s hs).mono fun a c' hgot => hpost a c' hgot.1 hgot.2

/-- What climbs within a level of its own is an expression. -/
theorem CallsClimb.nested {p : Parser Expr} (h : CallsClimb p) :
    CallsWithin (nested p) Expr.calls exprCalls := by
  intro c s hs
  simp only [yields_nested]
  intro hdepth
  obtain ⟨s, rfl⟩ : ∃ n, s = n + 1 := ⟨s - 1, by omega⟩
  refine (h _ s (by simp; omega)).mono ?_
  rintro x c' ⟨k, hk, _, hx⟩
  rw [exprCalls_succ]
  exact ⟨hs, by omega⟩

section Lists

variable {item : Parser α} {calls : α → Nat} {bound : Nat → Nat} {c : Cursor} {s : Nat}
  (h : CallsWithin item calls bound) (hs : c.depth + s = maxDepth)
include h hs

theorem CallsWithin.commaList : Yields (commaList item) c fun items c' =>
    c'.depth + s = maxDepth ∧ ∀ a ∈ items, calls a ≤ bound s :=
  yields_commaList (I := fun c => c.depth + s = maxDepth) (fun _ hc => hc) (fun c hc => h c s hc) hs

theorem CallsWithin.commaListUntil {close : Mark} : Yields (commaListUntil close item) c
    fun items c' => c'.depth + s = maxDepth ∧ ∀ a ∈ items, calls a ≤ bound s :=
  yields_commaListUntil (I := fun c => c.depth + s = maxDepth) (fun _ hc => hc)
    (fun c hc => h c s hc) hs

theorem CallsWithin.moreUntil {close : Mark} : Yields (moreUntil close item) c
    fun items c' => c'.depth + s = maxDepth ∧ ∀ a ∈ items, calls a ≤ bound s :=
  yields_moreUntil (I := fun c => c.depth + s = maxDepth) (fun _ hc => hc)
    (fun c hc => h c s hc) hs

theorem CallsWithin.endedListUntil {close : Mark} : Yields (endedListUntil close item) c
    fun items c' => c'.depth + s = maxDepth ∧ ∀ a ∈ items, calls a ≤ bound s :=
  yields_endedListUntil (I := fun c => c.depth + s = maxDepth) (fun _ hc => hc)
    (fun c hc => h c s hc) hs

end Lists

/-! Names and literals enter no level, and `nested` gives back all that are entered in it. -/

section Depth

variable {c : Cursor}

theorem yields_name_depth {post : Name → Cursor → Prop}
    (h : ∀ n c', c'.depth = c.depth → post n c') : Yields name c post :=
  yields_name.mpr fun _ _ => h _ _ rfl

theorem yields_nameList_depth {post : List Name → Cursor → Prop}
    (h : ∀ names c', c'.depth = c.depth → post names c') : Yields nameList c post :=
  (yields_commaList (I := fun c' => c'.depth = c.depth) (Q := fun _ => True) (fun _ hc => hc)
    (fun _ hc => yields_name_depth fun _ _ hd => ⟨hd.trans hc, trivial⟩) rfl).mono
    fun names c' hgot => h names c' hgot.1

theorem yields_textLiteral?_depth {post : Option Literal → Cursor → Prop}
    (h : ∀ lit c', c'.depth = c.depth → post lit c') : Yields textLiteral? c post :=
  yields_textLiteral?.mpr ⟨fun _ _ _ _ => h _ _ rfl, fun _ => h _ _ rfl⟩

theorem yields_nested_depth {p : Parser α} {post : α → Cursor → Prop}
    (h : ∀ a c', c'.depth = c.depth → post a c') : Yields (nested p) c post := by
  rw [yields_nested]
  exact fun _ a c' _ => h a _ rfl

end Depth

/-- The productions one level further in stay within their bounds. -/
structure Inner.CallsBounded (inner : Inner) : Prop where
  binary : ∀ least, CallsClimb (inner.binary least)
  unary : CallsClimb inner.unary
  type? : ∀ c s, c.depth + s = maxDepth → Yields inner.type? c fun t _ =>
    Expr.callsOption t ≤ typeCalls (s + 1)

section Productions

variable {inner : Inner} (hi : inner.CallsBounded)
include hi

theorem expr_calls : CallsWithin (expr inner) Expr.calls exprCalls :=
  (hi.binary 1).nested

theorem exprList_calls : CallsWithin (exprList inner) Expr.callsAll exprCalls := fun _ _ hs =>
  ((expr_calls hi).commaList hs).mono fun _ _ hgot => ⟨hgot.1, callsAll_le hgot.2⟩

theorem operandUnder_calls : CallsWithin (operandUnder inner) Expr.calls exprCalls :=
  hi.unary.nested

theorem type?_calls : CallsWithin (type? inner) Expr.callsOption typeCalls := by
  intro c s hs
  simp only [type?, yields_nested]
  intro hdepth
  obtain ⟨s, rfl⟩ : ∃ n, s = n + 1 := ⟨s - 1, by omega⟩
  exact (hi.type? _ s (by simp; omega)).mono fun t c' ht => ⟨hs, ht⟩

theorem type_calls : CallsWithin (type inner) Expr.calls typeCalls := by
  intro c s hs
  simp only [type, yields_bind]
  refine (type?_calls hi).yields hs fun t c₁ hs₁ ht => ?_
  cases t with
  | none => simp
  | some t => exact yields_pure.mpr ⟨hs₁, ht⟩

end Productions

end GoGloss.Grammar
