import GoGloss.Proofs.Legible
import GoGloss.Proofs.NestingBound.Basic
import GoGloss.Proofs.Verbatim.Basic

/-!
# Verbatim expressions are legible

What is read and turns out verbatim is legible, and it was read with as many levels as
`Expr.need` says and left as many entered as `Expr.kept` says. So there is room for it
wherever there was room when it was read first.
-/

namespace GoGloss.Grammar

open GoGloss.Expr

/-! ## What is stated -/

/-- An expression that was read from `c` to `c'` took the levels that it needs. -/
def Fares (c : Cursor) (x : Expr) (c' : Cursor) : Prop :=
  x.Verbatim → x.Legible ∧ c.depth + x.need ≤ maxDepth ∧ c'.depth = c.depth + x.kept

/-- An expression that was read at a depth, on a level of its own. -/
def FaresInside (depth : Nat) (x : Expr) : Prop :=
  x.Verbatim → x.Legible ∧ depth + (x.need + 1) ≤ maxDepth

/-- A type that was read at a depth. -/
def FaresAsType (depth : Nat) (t : Expr) : Prop :=
  t.Verbatim → t.LegibleType ∧ depth + t.typeNeed ≤ maxDepth

/-- Whether a type that starts with a token can be verbatim. -/
def startsTypeName : Token → Bool
  | .name _ | .mark .lparen => true
  | _ => false

/-- The productions one level further in take the levels that they need. -/
structure Inner.Fares (inner : Inner) : Prop where
  binary : ∀ least c, c.depth ≤ maxDepth → Yields (inner.binary least) c (Grammar.Fares c)
  unary : ∀ c, c.depth ≤ maxDepth → Yields inner.unary c (Grammar.Fares c)
  type? : ∀ c, c.depth ≤ maxDepth → Yields inner.type? c fun t _ => ∀ x ∈ t,
    FaresAsType c.depth x ∧ (x.Verbatim → startsTypeName c.head.token = true)

theorem add_needAll_le {depth : Nat} {xs : List Expr} (hdepth : depth ≤ maxDepth)
    (h : ∀ x ∈ xs, depth + (x.need + 1) ≤ maxDepth) : depth + needAll xs ≤ maxDepth := by
  induction xs with
  | nil => exact hdepth
  | cons x xs ih =>
      rw [List.forall_mem_cons] at h
      have := ih h.2
      rw [needAll]
      omega

theorem add_typeNeedAll_le {depth : Nat} {ts : List Expr} (hdepth : depth ≤ maxDepth)
    (h : ∀ t ∈ ts, depth + (t.typeNeed + 1) ≤ maxDepth) : depth + typeNeedAll ts ≤ maxDepth := by
  induction ts with
  | nil => exact hdepth
  | cons t ts ih =>
      rw [List.forall_mem_cons] at h
      have := ih h.2
      rw [typeNeedAll]
      omega

section Productions

variable {inner : Inner} (hi : inner.Fares) {c : Cursor}
include hi

theorem expr_fares :
    Yields (expr inner) c fun x c' => c'.depth = c.depth ∧ FaresInside c.depth x := by
  rw [expr, yields_nested]
  intro hdepth
  refine (hi.binary 1 (c.withDepth (c.depth + 1)) hdepth).mono fun x c₁ hx => ⟨rfl, fun hv => ?_⟩
  obtain ⟨hlegible, hneed, -⟩ := hx hv
  rw [Cursor.withDepth_depth] at hneed
  exact ⟨hlegible, by omega⟩

theorem operandUnder_fares :
    Yields (operandUnder inner) c fun x c' => c'.depth = c.depth ∧ FaresInside c.depth x := by
  rw [operandUnder, yields_nested]
  intro hdepth
  refine (hi.unary (c.withDepth (c.depth + 1)) hdepth).mono fun x c₁ hx => ⟨rfl, fun hv => ?_⟩
  obtain ⟨hlegible, hneed, -⟩ := hx hv
  rw [Cursor.withDepth_depth] at hneed
  exact ⟨hlegible, by omega⟩

theorem type_fares :
    Yields (type inner) c fun t c' => c'.depth = c.depth ∧ FaresAsType (c.depth + 1) t := by
  simp only [Grammar.type, Grammar.type?, yields_bind, yields_nested]
  intro hdepth
  refine (hi.type? (c.withDepth (c.depth + 1)) hdepth).mono fun t c₁ ht => ?_
  cases t with
  | none => simp
  | some t => exact yields_pure.mpr ⟨rfl, (ht t rfl).1⟩

/-! ## Types -/

theorem instantiated_fares {start : Nat} {t : Expr} (ht : t.NamesType)
    (hdepth : c.depth ≤ maxDepth) :
    Yields (instantiated inner start t) c fun x _ => FaresAsType c.depth x := by
  simp only [instantiated, yields_bind, yields_eats]
  refine ⟨fun _ => ?_, fun _ => ?_⟩
  · simp only [if_true, yields_bind]
    refine (type_fares hi).mono fun first c₁ hfirst => ?_
    obtain ⟨hdepth₁, hfirst⟩ := hfirst
    rw [Cursor.advance_depth] at hdepth₁ hfirst
    refine (yields_moreUntil (I := fun c' => c'.depth = c.depth)
      (Q := fun a => FaresAsType (c.depth + 1) a) (fun _ hc => hc)
      (fun c₂ hc₂ => ?_) hdepth₁).mono fun others c₂ hothers => ?_
    · refine (type_fares hi).mono fun a c₃ ha => ?_
      rw [hc₂] at ha
      exact ha
    simp only [yields_discard, yields_expect, yields_spanFrom]
    intro _
    have hall : ∀ a ∈ first :: others, FaresAsType (c.depth + 1) a :=
      List.forall_mem_cons.mpr ⟨hfirst, hothers.2⟩
    split
    · refine yields_makeExpr.mpr fun hv => ?_
      obtain ⟨hlegible, hneed⟩ := hfirst (hv.operand (p := .index) (by simp [Node.exprChildren]))
      refine ⟨.index ht hlegible, ?_⟩
      rw [typeNeed]
      omega
    · rename_i hmore
      refine yields_makeExpr.mpr fun hv => ?_
      have hbelow := hv.below
      rw [Node.exprChildren, Node.all_cons, Node.all_exprs] at hbelow
      refine ⟨.indexList ht ?_ fun a ha => (hall a ha (hbelow.2 a ha)).1, ?_⟩
      · have := List.length_pos_iff.mpr hmore
        rw [List.length_cons]
        omega
      · rw [typeNeed]
        refine add_typeNeedAll_le hdepth fun a ha => ?_
        have := (hall a ha (hbelow.2 a ha)).2
        omega
  · refine yields_pure.mpr fun _ => ⟨.name ht, ?_⟩
    have hname : t.typeNeed = 0 := by cases ht <;> rfl
    rw [hname]
    exact hdepth

theorem typeName_fares (hdepth : c.depth ≤ maxDepth) :
    Yields (typeName inner) c fun x _ => FaresAsType c.depth x := by
  simp only [typeName, yields_bind, yields_here]
  refine yields_name_depth fun n c₁ hd => ?_
  simp only [yields_makeExpr, yields_eats]
  refine ⟨fun _ => ?_, fun _ => ?_⟩
  · simp only [if_true, yields_bind]
    refine yields_name_depth fun member c₂ hd₂ => ?_
    simp only [yields_spanFrom]
    have hsame : c₂.depth = c.depth := hd₂.trans hd
    rw [← hsame] at hdepth ⊢
    rw [yields_makeExpr]
    exact instantiated_fares hi .selector hdepth
  · rw [← hd] at hdepth ⊢
    exact instantiated_fares hi .ident hdepth

theorem parenType_fares :
    Yields (parenType inner) c fun x _ => FaresAsType c.depth x := by
  simp only [parenType, yields_bind, yields_here, yields_take]
  refine (type_fares hi).mono fun t c₁ ht => ?_
  simp only [yields_expect, yields_spanFrom, yields_makeExpr]
  intro _ hv
  obtain ⟨hlegible, hneed⟩ := ht.2 (hv.operand (p := .expr) (by simp [Node.exprChildren]))
  refine ⟨.paren hlegible, ?_⟩
  rw [Cursor.advance_depth] at hneed
  rw [typeNeed]
  omega

omit hi in
/-- What is not a verbatim expression need not be looked at. -/
theorem not_verbatim_of_isEchoed {x : Expr} (h : x.isEchoed = false) : ¬ x.Verbatim := fun hv =>
  absurd hv.echoed (by rw [h]; decide)

omit hi in
theorem funcType_not_verbatim : Yields (funcType inner) c fun x _ => ¬ x.Verbatim := by
  simp [funcType]
  exact fun _ => yields_true.mono fun _ _ _ => not_verbatim_of_isEchoed rfl

/-- All other types are said in words. -/
theorem typeHere?_fares (hdepth : c.depth ≤ maxDepth) :
    Yields (typeHere? inner) c fun t _ => ∀ x ∈ t,
      FaresAsType c.depth x ∧ (x.Verbatim → startsTypeName c.head.token = true) := by
  have hother : ∀ {p : Parser Expr}, Yields p c (fun x _ => ¬ x.Verbatim) →
      Yields (some <$> p) c fun t _ => ∀ x ∈ t,
        FaresAsType c.depth x ∧ (x.Verbatim → startsTypeName c.head.token = true) := by
    intro p hp
    rw [yields_map]
    refine hp.mono fun x c₁ hx y hy => ?_
    obtain rfl := Option.mem_some_iff.mp hy
    exact ⟨fun hv => absurd hv hx, fun hv => absurd hv hx⟩
  have hname : ∀ {p : Parser Expr}, startsTypeName c.head.token = true →
      Yields p c (fun x _ => FaresAsType c.depth x) →
      Yields (some <$> p) c fun t _ => ∀ x ∈ t,
        FaresAsType c.depth x ∧ (x.Verbatim → startsTypeName c.head.token = true) := by
    intro p hstarts hp
    rw [yields_map]
    refine hp.mono fun x c₁ hx y hy => ?_
    obtain rfl := Option.mem_some_iff.mp hy
    exact ⟨hx, fun _ => hstarts⟩
  simp only [typeHere?, yields_bind, yields_peek]
  split
  · rename_i htoken
    exact hname (by rw [htoken]; rfl) (typeName_fares hi hdepth)
  · exact hother funcType_not_verbatim
  · refine hother ?_
    simp [arrayType]
    exact fun _ => yields_true.mono fun _ _ _ _ => yields_true.mono fun _ _ _ =>
      not_verbatim_of_isEchoed rfl
  · refine hother ?_
    simp [structType]
    exact fun _ _ => yields_true.mono fun _ _ _ _ => not_verbatim_of_isEchoed rfl
  · refine hother ?_
    simp [interfaceType]
    exact fun _ _ => yields_true.mono fun _ _ _ _ => not_verbatim_of_isEchoed rfl
  · refine hother ?_
    simp [pointerType]
    exact yields_true.mono fun _ _ _ => not_verbatim_of_isEchoed rfl
  · refine hother ?_
    simp [mapType]
    exact fun _ => yields_true.mono fun _ _ _ _ => yields_true.mono fun _ _ _ =>
      not_verbatim_of_isEchoed rfl
  · refine hother ?_
    simp [chanType]
    exact ⟨fun _ => yields_true.mono fun _ _ _ => not_verbatim_of_isEchoed rfl,
      fun _ => yields_true.mono fun _ _ _ => not_verbatim_of_isEchoed rfl⟩
  · refine hother ?_
    simp [receiveType]
    exact fun _ => yields_true.mono fun _ _ _ => not_verbatim_of_isEchoed rfl
  · rename_i htoken
    exact hname (by rw [htoken]; rfl) (parenType_fares hi)
  · simp

/-! ## Operands -/

theorem parenExpr_fares :
    Yields (parenExpr inner) c (Fares c) := by
  simp only [parenExpr, yields_bind, yields_here, yields_take, yields_bracketed]
  refine (expr_fares hi).mono fun x c₁ hx => ?_
  simp only [yields_expect, yields_spanFrom, yields_makeExpr]
  intro _ hv
  obtain ⟨hlegible, hneed⟩ := hx.2 (hv.operand (p := .expr) (by simp [Node.exprChildren]))
  exact ⟨.paren hlegible, hneed, hx.1⟩

omit hi in
theorem funcTypeOrLit_not_verbatim : Yields (funcTypeOrLit inner) c fun x _ => ¬ x.Verbatim := by
  simp [funcTypeOrLit]
  exact funcType_not_verbatim.mono fun t c₁ ht =>
    ⟨fun _ => yields_true.mono fun _ _ _ => not_verbatim_of_isEchoed rfl, fun _ => ht⟩

theorem operand_fares (hdepth : c.depth ≤ maxDepth) : Yields (operand inner) c (Fares c) := by
  simp only [operand, yields_bind, yields_peek]
  split
  · rw [yields_bind]
    refine yields_name_depth fun n c₁ hd => yields_makeExpr.mpr fun _ => ?_
    exact ⟨.ident, hdepth, hd⟩
  · exact parenExpr_fares hi
  · exact funcTypeOrLit_not_verbatim.mono fun x c₁ hx hv => absurd hv hx
  · simp only [yields_bind, yields_take, yields_makeExpr]
    exact fun _ => ⟨.literal, hdepth, rfl⟩
  · -- a type that starts with neither a name nor a parenthesis is said in words
    rename_i hname hparen _ _
    simp only [yields_bind, Grammar.type?, yields_nested]
    intro hlt
    refine (hi.type? (c.withDepth (c.depth + 1)) hlt).mono fun t c₁ ht => ?_
    cases t with
    | none => simp
    | some t =>
        refine yields_pure.mpr fun hv => ?_
        have hstarts := (ht t rfl).2 hv
        rw [Cursor.withDepth_head, startsTypeName.eq_def] at hstarts
        split at hstarts
        · rename_i htoken
          exact absurd htoken (hname _)
        · rename_i htoken
          exact absurd htoken hparen
        · cases hstarts

/-! ## What follows an operand -/

section Rounds

variable {c₀ c' : Cursor} {x y : Expr} {start : Nat}

omit hi in
/-- A round enters a level, keeps it, and needs `k` levels more. -/
theorem Fares.round (hx : Fares c₀ x c) (hkept : y.kept = x.kept + 1)
    (hdepth : c'.depth = c.depth + 1)
    (hy : y.Verbatim → x.Verbatim ∧ (x.Legible → y.Legible) ∧
      ∃ k, y.need = max x.need (x.kept + 1 + k) ∧ c.depth + 1 + k ≤ maxDepth) :
    Fares c₀ y c' := by
  intro hv
  obtain ⟨hvx, hlegible, k, hneed, hroom⟩ := hy hv
  obtain ⟨hlegiblex, hneedx, hkeptx⟩ := hx hvx
  refine ⟨hlegible hlegiblex, ?_, ?_⟩
  · rw [hneed]
    omega
  · rw [hdepth, hkept]
    omega

theorem selectorOrAssertion_fares (hx : Fares c₀ x c) (hdepth : c.depth < maxDepth) :
    Yields (selectorOrAssertion inner x start) (c.withDepth (c.depth + 1)) (Fares c₀) := by
  simp only [selectorOrAssertion, yields_bind, yields_discard, yields_take, yields_peek]
  split
  · rw [yields_bind]
    refine yields_name_depth fun member c₁ hd => ?_
    simp only [yields_bind, yields_spanFrom, yields_makeExpr]
    refine hx.round rfl hd fun hv => ⟨hv.operand (.head _), .selector, 0, rfl, hdepth⟩
  · simp only [yields_bind, yields_discard, yields_take, yields_eats]
    refine ⟨fun _ => ?_, fun _ => ?_⟩
    · simp only [if_true, yields_bind, yields_pure, yields_discard, yields_expect, yields_spanFrom,
        yields_makeExpr]
      exact fun _ => hx.round rfl rfl fun hv => ⟨hv.operand (.head _), .typeGuard, 0, rfl, hdepth⟩
    · simp only [Bool.false_eq_true, if_false, yields_map, yields_bind]
      refine (type_fares hi).mono fun t c₁ ht => ?_
      simp only [yields_discard, yields_expect, yields_spanFrom, yields_makeExpr]
      intro _
      refine hx.round rfl ht.1 fun hv => ?_
      obtain ⟨hlegible, hneed⟩ := ht.2 (hv.operand (.tail _ (.head _)))
      refine ⟨hv.operand (.head _), fun hlegiblex => .typeAssert hlegiblex hlegible hlegible.legible,
        t.typeNeed + 1, rfl, ?_⟩
      simp only [Cursor.advance_depth, Cursor.withDepth_depth] at hneed
      omega
  · simp

theorem sliceBound_fares : Yields (sliceBound inner) c fun bound c' =>
    c'.depth = c.depth ∧ ∀ y ∈ bound, FaresInside c.depth y := by
  simp only [sliceBound, yields_bind, yields_peek]
  split
  · simp
  · simp
  · simpa using expr_fares hi

theorem sliceBounds_fares : Yields (sliceBounds inner) c fun bounds c' =>
    c'.depth = c.depth ∧ (∀ y ∈ bounds.1, FaresInside c.depth y) ∧
      (∀ y ∈ bounds.2.1, FaresInside c.depth y) ∧ (bounds.2.2 = false → bounds.2.1 = none) := by
  simp only [sliceBounds, yields_bind, yields_eats]
  refine ⟨fun _ => ?_, fun _ => by simp⟩
  simp only [if_true, yields_bind]
  refine (sliceBound_fares hi).mono fun upper c₁ hupper => ?_
  obtain ⟨hdepth, hupper⟩ := hupper
  rw [Cursor.advance_depth] at hdepth hupper
  rw [yields_eats]
  refine ⟨fun _ => ?_, fun _ => ?_⟩
  · simp only [if_true, yields_bind]
    refine (sliceBound_fares hi).mono fun bound c₂ hbound => ?_
    rw [Cursor.advance_depth, hdepth] at hbound
    exact yields_pure.mpr ⟨hbound.1, hupper, hbound.2, by simp⟩
  · exact yields_pure.mpr ⟨hdepth, hupper, by simp, fun _ => rfl⟩

omit hi in
/-- What stands between brackets took the levels that it needs. -/
def Subscript.Fares (depth : Nat) : Subscript Expr → Prop
  | .indices first others => ∀ i ∈ first :: others, FaresInside depth i
  | .slice lo hi bound full => (∀ y ∈ lo, FaresInside depth y) ∧ (∀ y ∈ hi, FaresInside depth y) ∧
      (∀ y ∈ bound, FaresInside depth y) ∧ (full = false → bound = none)

theorem subscript_fares : Yields (subscript inner) c fun sub c' =>
    c'.depth = c.depth ∧ sub.Fares c.depth := by
  have hslice : ∀ {lo : Option Expr} {c₁ : Cursor}, c₁.depth = c.depth →
      (∀ y ∈ lo, FaresInside c.depth y) → Yields (do
        let bounds ← sliceBounds inner
        return Subscript.slice lo bounds.1 bounds.2.1 bounds.2.2) c₁ fun sub c' =>
          c'.depth = c.depth ∧ sub.Fares c.depth := by
    intro lo c₁ hdepth hlo
    rw [yields_bind]
    refine (sliceBounds_fares hi).mono fun bounds c₂ hbounds => ?_
    rw [hdepth] at hbounds
    exact yields_pure.mpr ⟨hbounds.1, hlo, hbounds.2⟩
  simp only [subscript, yields_bind, yields_isAt]
  by_cases hcolon : c.head.token = .mark .colon
  · simp only [hcolon, decide_true, if_true]
    exact hslice rfl (by simp)
  · simp only [hcolon, decide_false, Bool.false_eq_true, if_false, yields_bind, yields_map,
      yields_isAt]
    refine (expr_fares hi).mono fun first c₁ hfirst => ?_
    obtain ⟨hdepth, hfirst⟩ := hfirst
    by_cases hcolon₁ : c₁.head.token = .mark .colon
    · simp only [hcolon₁, decide_true]
      exact hslice hdepth (by simpa using hfirst)
    · simp only [hcolon₁, decide_false]
      rw [yields_bind]
      refine (yields_moreUntil (I := fun c' => c'.depth = c.depth)
        (Q := FaresInside c.depth) (fun _ hc => hc) (fun c₂ hc₂ => ?_) hdepth).mono
        fun others c₂ hothers => ?_
      · rw [← hc₂]
        exact (expr_fares hi).mono fun a c₃ ha => ⟨ha.1, ha.2⟩
      · exact yields_pure.mpr ⟨hothers.1, List.forall_mem_cons.mpr ⟨hfirst, hothers.2⟩⟩

theorem subscripted_fares (hx : Fares c₀ x c) (hdepth : c.depth < maxDepth) :
    Yields (subscripted inner x start) (c.withDepth (c.depth + 1)) (Fares c₀) := by
  simp only [subscripted, yields_bind, yields_discard, yields_take, yields_bracketed,
    yields_expect, yields_spanFrom]
  refine (subscript_fares hi).mono fun sub c₁ hsub _ => ?_
  obtain ⟨hdepth₁, hsub⟩ := hsub
  simp only [Cursor.advance_depth, Cursor.withDepth_depth, Cursor.withExprLevel_depth]
    at hdepth₁ hsub
  have hdepth₂ : (c₁.withExprLevel (c₁.exprLevel - 1)).advance.depth = c.depth + 1 := hdepth₁
  generalize (c₁.withExprLevel (c₁.exprLevel - 1)).advance = c₂ at hdepth₂
  split
  · refine yields_makeExpr.mpr (hx.round rfl hdepth₂ fun hv => ?_)
    rename_i first
    obtain ⟨hlegible, hneed⟩ := hsub first List.mem_cons_self (hv.operand (.tail _ (.head _)))
    exact ⟨hv.operand (.head _), fun hlegiblex => .index hlegiblex hlegible, first.need + 1, rfl,
      hneed⟩
  · rename_i first others hmore
    refine yields_makeExpr.mpr (hx.round rfl hdepth₂ fun hv => ?_)
    have hbelow := hv.below
    rw [Node.exprChildren, Node.all_cons, Node.all_exprs] at hbelow
    have hall := fun i hi => hsub i hi (hbelow.2 i hi)
    refine ⟨hbelow.1, fun hlegiblex => .indexList hlegiblex ?_ fun i hi => (hall i hi).1,
      needAll (first :: others), rfl, add_needAll_le hdepth fun i hi => (hall i hi).2⟩
    have := List.length_pos_iff.mpr hmore
    rw [List.length_cons]
    omega
  · simp
  · simp
  · rename_i lo upper bound full hmiddle hfinal
    refine yields_makeExpr.mpr (hx.round rfl hdepth₂ fun hv => ?_)
    have hbelow := hv.below
    simp only [Node.exprChildren, Node.all_cons, Node.all_append, Node.all_expr?] at hbelow
    obtain ⟨hvx, ⟨hvlo, hvupper⟩, hvbound⟩ := hbelow
    obtain ⟨hlo, hupper, hbound, hfull⟩ := hsub
    have hroom : ∀ {y : Option Expr}, (∀ z ∈ y, FaresInside (c.depth + 1) z) →
        (∀ z ∈ y, (Node.expr z).Verbatim) → c.depth + 1 + needOption y ≤ maxDepth := by
      intro y hy hvy
      cases y with
      | none => exact hdepth
      | some y => exact (hy y rfl (hvy y rfl)).2
    have hneed := hroom hlo hvlo
    have hneed' := hroom hupper hvupper
    have hneed'' := hroom hbound hvbound
    refine ⟨hvx, fun hlegiblex => ?_, max (needOption lo) (max (needOption upper) (needOption bound)),
      rfl, by omega⟩
    have hlo' := fun y hy => (hlo y hy (hvlo y hy)).1
    cases full with
    | false =>
        obtain rfl := hfull rfl
        exact .slice hlegiblex hlo' fun y hy => (hupper y hy (hvupper y hy)).1
    | true =>
        cases upper with
        | none => exact (hmiddle rfl rfl).elim
        | some upper =>
            cases bound with
            | none => exact (hfinal rfl rfl).elim
            | some bound =>
                exact .fullSlice hlegiblex hlo' (hupper upper rfl (hvupper upper rfl)).1
                  (hbound bound rfl (hvbound bound rfl)).1

theorem argRound_fares {depth : Nat} (hdepth : c.depth = depth) :
    Yields (argRound inner) c fun r c' =>
      c'.depth = depth ∧ ∀ arg ∈ r.item?, FaresInside depth arg.1 := by
  subst hdepth
  simp only [argRound, yields_bind, yields_peek]
  split
  · simp [Round.item?]
  · simp [Round.item?]
  · rw [yields_bind]
    refine (expr_fares hi).mono fun x c₁ hx => ?_
    simp [Round.item?, hx.1, hx.2]

theorem call_fares (hx : Fares c₀ x c) (hdepth : c.depth < maxDepth) :
    Yields (call inner x start) (c.withDepth (c.depth + 1)) (Fares c₀) := by
  simp only [call, yields_bind, yields_discard, yields_take, yields_bracketed]
  refine (yields_collect_all (I := fun c' => c'.depth = c.depth + 1)
    (Q := fun arg => FaresInside (c.depth + 1) arg.1) rfl
    fun c₁ hc₁ => argRound_fares hi hc₁).mono fun args c₁ hargs => ?_
  simp only [yields_expect, yields_spanFrom, yields_makeExpr]
  intro _
  refine hx.round rfl hargs.1 fun hv => ?_
  have hbelow := hv.below
  rw [Node.exprChildren, Node.all_cons, Node.all_exprs] at hbelow
  have hall : ∀ a ∈ args.map (·.1), a.Legible ∧ c.depth + 1 + (a.need + 1) ≤ maxDepth := by
    intro a ha
    obtain ⟨arg, harg, rfl⟩ := List.mem_map.mp ha
    exact hargs.2 arg harg (hbelow.2 _ ha)
  -- a verbatim call has no dots
  obtain hdots : args.getLast?.bind (·.2) = none := by
    simpa [isEchoed] using hv.echoed
  refine ⟨hbelow.1, fun hlegiblex => ?_, needAll (args.map (·.1)), rfl,
    add_needAll_le hdepth fun a ha => (hall a ha).2⟩
  rw [hdots]
  exact .call hlegiblex fun a ha => (hall a ha).1

omit hi in
theorem literalValue_not_verbatim {t : Option Expr} :
    Yields (literalValue inner t start) c fun x _ => ¬ x.Verbatim := by
  simp [literalValue]
  exact fun _ => yields_true.mono fun _ _ _ _ => not_verbatim_of_isEchoed rfl

theorem postfixRound_fares (hx : Fares c₀ x c) :
    Yields (postfixRound inner start x) c fun y c' => Fares c₀ (y.getD x) c' := by
  simp only [postfixRound, yields_bind, yields_peek]
  split
  · simp only [yields_bind, yields_enter, yields_map]
    exact fun hdepth => selectorOrAssertion_fares hi hx hdepth
  · simp only [yields_bind, yields_enter, yields_map]
    exact fun hdepth => subscripted_fares hi hx hdepth
  · simp only [yields_bind, yields_enter, yields_map]
    exact fun hdepth => call_fares hi hx hdepth
  · simp only [yields_bind, yields_get, yields_ite, yields_enter, yields_map, yields_pure]
    refine ⟨fun _ _ => ?_, fun _ => hx⟩
    exact literalValue_not_verbatim.mono fun y c₁ hy hv => absurd hv hy
  · exact yields_pure.mpr hx

end Rounds

theorem primary_fares (hdepth : c.depth ≤ maxDepth) : Yields (primary inner) c (Fares c) := by
  simp only [primary, yields_bind, yields_here]
  refine (operand_fares hi hdepth).mono fun x c₁ hx => ?_
  exact yields_extend hx fun y c₂ hy => postfixRound_fares hi hy

/-! ## Operators -/

/-- An operand under an operator of a verbatim expression. -/
theorem unaryExpr_fares (op : UnaryOp) : Yields (unaryExpr inner op) c (Fares c) := by
  simp only [unaryExpr, yields_bind, yields_here, yields_take]
  refine (operandUnder_fares hi).mono fun x c₁ hx => ?_
  simp only [yields_spanFrom, yields_makeExpr]
  intro hv
  obtain ⟨hlegible, hneed⟩ := hx.2 (hv.operand (.head _))
  exact ⟨.unary hlegible, hneed, hx.1⟩

theorem receiveExpr_fares : Yields (receiveExpr inner) c (Fares c) := by
  simp only [receiveExpr, yields_bind, yields_here, yields_take, yields_eats]
  refine ⟨fun _ => ?_, fun _ => ?_⟩
  · simp only [if_true, yields_bind]
    refine yields_true.mono fun _ c₁ _ => ?_
    simp only [yields_spanFrom, yields_makeExpr]
    exact fun hv => absurd hv (not_verbatim_of_isEchoed rfl)
  · simp only [Bool.false_eq_true, if_false, yields_bind]
    refine (operandUnder_fares hi).mono fun x c₁ hx => ?_
    simp only [yields_spanFrom, yields_makeExpr]
    intro hv
    obtain ⟨hlegible, hneed⟩ := hx.2 (hv.operand (.head _))
    exact ⟨.unary hlegible, hneed, hx.1⟩

omit hi in
theorem starExpr_not_verbatim : Yields (starExpr inner) c fun x _ => ¬ x.Verbatim := by
  simp [starExpr]
  exact yields_true.mono fun _ _ _ => not_verbatim_of_isEchoed rfl

theorem unary_fares (hdepth : c.depth ≤ maxDepth) : Yields (unary inner) c (Fares c) := by
  simp only [unary, yields_bind, yields_peek]
  split
  · exact receiveExpr_fares hi
  · exact starExpr_not_verbatim.mono fun x c₁ hx hv => absurd hv hx
  · split
    · exact unaryExpr_fares hi _
    · exact primary_fares hi hdepth

theorem binaryRound_fares {c₀ : Cursor} {least start : Nat} {l : Expr} (hl : Fares c₀ l c) :
    Yields (binaryRound inner least start l) c fun y c' => Fares c₀ (y.getD l) c' := by
  simp only [binaryRound, yields_bind, yields_peek]
  split
  · exact yields_pure.mpr hl
  · rename_i op _
    rw [yields_ite]
    refine ⟨fun _ => yields_pure.mpr hl, fun _ => ?_⟩
    simp only [yields_bind, yields_enter, yields_take]
    intro hdepth
    refine (hi.binary _ (c.withDepth (c.depth + 1)).advance hdepth).mono fun r c₁ hr => ?_
    simp only [yields_spanFrom, yields_makeExpr, yields_pure]
    intro hv
    obtain ⟨hlegiblel, hneedl, hkeptl⟩ := hl (hv.operand (.head _))
    obtain ⟨hlegibler, hneedr, hkeptr⟩ := hr (hv.operand (.tail _ (.head _)))
    rw [Cursor.advance_depth, Cursor.withDepth_depth] at hneedr hkeptr
    refine ⟨.binary hlegiblel hlegibler, ?_, ?_⟩
    · rw [Option.getD_some, need]
      omega
    · rw [Cursor.withBench_depth, hkeptr, Option.getD_some, kept]
      omega

theorem binary_fares {least : Nat} (hdepth : c.depth ≤ maxDepth) :
    Yields (binary inner least) c (Fares c) := by
  simp only [binary, yields_bind, yields_here]
  refine (unary_fares hi hdepth).mono fun x c₁ hx => ?_
  exact yields_extend hx fun y c₂ hy => binaryRound_fares hi hy

end Productions

/-! ## All levels -/

theorem inner_fares (n : Nat) : (inner n).Fares := by
  induction n with
  | zero => exact ⟨fun _ _ _ => yields_failHere, fun _ _ => yields_failHere, fun _ _ => yields_failHere⟩
  | succ n ih =>
      exact ⟨fun _ _ => binary_fares ih, fun _ => unary_fares ih, fun _ => typeHere?_fares ih⟩

/-- A whole source that turns out verbatim has room for its expression. -/
theorem wholeExpr_fares {c : Cursor} :
    Yields wholeExpr c fun x _ => FaresInside c.depth x := by
  simp [wholeExpr]
  exact (expr_fares (inner_fares _)).mono fun x c₁ hx => by simp [hx.2]

end GoGloss.Grammar
