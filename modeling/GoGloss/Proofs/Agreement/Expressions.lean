import GoGloss.Proofs.Agreement.Types

/-!
# Readers of expressions agree

Whether a brace opens a composite literal depends on what was read before it, but
not on where that stands. All else is told by the tokens.
-/

namespace GoGloss

namespace Expr

theorem unparen_bare (x : Expr) : x.bare.unparen = x.unparen.bare := by
  fun_induction unparen x with
  | case1 _ _ inner _ ih => simpa [unparen] using ih
  | case2 x hx =>
      cases x with
      | paren => exact (hx _ _ _ _ rfl).elim
      | _ => rfl

theorem isCall_bare (x : Expr) : x.bare.isCall = x.isCall := by
  rw [isCall, isCall, unparen_bare]
  cases x.unparen <;> rfl

theorem isTypeGuard_bare (x : Expr) : x.bare.isTypeGuard = x.isTypeGuard := by
  cases x with
  | typeAssert span operand type => cases type <;> rfl
  | _ => rfl

end Expr

namespace Grammar

theorem opensLiteral_bare (x : Expr) (level : Int) :
    opensLiteral x.bare level = opensLiteral x level := by
  rw [opensLiteral, opensLiteral, Expr.unparen_bare]
  cases x.unparen <;> rfl

/-- Whether the last argument of a call is spread out shows without places. -/
theorem bareSpan_lastDots {args args' : List (Expr × Option Span)}
    (h : args.map (Prod.map Expr.bare bareSpan) = args'.map (Prod.map Expr.bare bareSpan)) :
    bareSpan (args.getLast?.bind (·.2)) = bareSpan (args'.getLast?.bind (·.2)) := by
  have hlast := congrArg List.getLast? h
  simp only [List.getLast?_map] at hlast
  cases ha : args.getLast? <;> cases ha' : args'.getLast? <;> simp_all [Prod.map]

section Productions

variable {k : Nat} {inner inner' : Inner} (hi : inner.Agree k inner')
include hi

/-! ## Blocks and operands -/

theorem stmtList_agree : Agree k (List.map Stmt.bare) (stmtList inner) (stmtList inner') := by
  refine Agree.collect (agree_peek.same fun t => .ite (agree_pure rfl) ?_)
  refine (stmt_agree hi).bind fun s s' hs => agree_expectEnd.same fun _ => ?_
  exact agree_pure (congrArg Round.more hs)

theorem block_agree : Agree k Block.bare (block inner) (block inner') := by
  refine .expect fun _ _ => (stmtList_agree hi).bind fun ss ss' hss => ?_
  exact .expect fun _ _ => agree_pure (by simp [hss])

theorem parenExpr_agree : Agree k Expr.bare (parenExpr inner) (parenExpr inner') := by
  refine .here fun _ _ => .take fun _ _ => ?_
  refine (expr_agree hi).bracketed.bind fun x x' hx => .expect fun _ _ => ?_
  exact .makeExpr fun _ _ => by simp [hx]

theorem funcTypeOrLit_agree : Agree k Expr.bare (funcTypeOrLit inner) (funcTypeOrLit inner') := by
  refine .here fun _ _ => (funcType_agree hi).bind fun t t' ht => ?_
  refine (agree_isAt _).same fun _ => .ite ?_ (agree_pure ht)
  refine (block_agree hi).bracketed.bind fun body body' hbody => ?_
  exact .makeExpr fun _ _ => by simp [ht, hbody]

theorem operand_agree : Agree k Expr.bare (operand inner) (operand inner') := by
  refine agree_peek.same fun t => ?_
  split
  · exact agree_name.bind fun n n' hn => agree_makeExpr (by simp [hn])
  · exact parenExpr_agree hi
  · exact funcTypeOrLit_agree hi
  · exact .take fun _ _ => agree_makeExpr rfl
  · refine (type?_agree hi).bind fun t t' ht => ?_
    cases t <;> cases t' <;> simp at ht
    · exact agree_failExpected
    · exact agree_pure ht

/-! ## What follows an operand -/

section Suffixes

variable {x x' : Expr} (hx : x.bare = x'.bare) (start start' : Nat)
include hx

theorem selectorOrAssertion_agree : Agree k Expr.bare (selectorOrAssertion inner x start)
    (selectorOrAssertion inner' x' start') := by
  refine .drop <| agree_peek.same fun t => ?_
  split
  · refine agree_name.bind fun member member' hmember => ?_
    exact .makeExpr fun _ _ => by simp [hx, hmember]
  · refine .drop <| (agree_eats _).same fun _ => ?_
    refine Agree.join (agree_pure rfl) (type_agree hi).some fun t t' ht => ?_
    refine .skip ?_
    exact .makeExpr fun _ _ => by simp [hx, ht]
  · exact agree_failExpected

omit hx in
theorem sliceBound_agree :
    Agree k (Option.map Expr.bare) (sliceBound inner) (sliceBound inner') := by
  refine agree_peek.same fun t => ?_
  split
  · exact agree_pure rfl
  · exact agree_pure rfl
  · exact (expr_agree hi).some

omit hx in
theorem sliceBounds_agree :
    Agree k (Prod.map (Option.map Expr.bare) (Prod.map (Option.map Expr.bare) id))
      (sliceBounds inner) (sliceBounds inner') := by
  refine (agree_eats _).same fun _ => .ite ?_ (agree_pure rfl)
  refine (sliceBound_agree hi).bind fun high high' hhigh => (agree_eats _).same fun _ => .ite ?_ ?_
  · exact (sliceBound_agree hi).bind fun max max' hmax => agree_pure (by simp [hhigh, hmax])
  · exact agree_pure (by simp [hhigh])

omit hx in
/-- What stands between the brackets after an operand, without its places. -/
def Subscript.unplaced : Subscript Expr → Subscript Expr
  | .indices first others => .indices first.bare (others.map Expr.bare)
  | .slice lo hi max full =>
    .slice (lo.map Expr.bare) (hi.map Expr.bare) (max.map Expr.bare) full

omit hx in
theorem subscript_agree :
    Agree k Subscript.unplaced (subscript inner) (subscript inner') := by
  refine (agree_isAt _).same fun _ => ?_
  refine Agree.join (agree_pure rfl) (expr_agree hi).some fun first first' hfirst => ?_
  refine (agree_isAt _).same fun colon => ?_
  have hslice : Agree k Subscript.unplaced
      (do let b ← sliceBounds inner; return .slice first b.1 b.2.1 b.2.2)
      (do let b ← sliceBounds inner'; return .slice first' b.1 b.2.1 b.2.2) := by
    refine (sliceBounds_agree hi).bind fun bounds bounds' hbounds => agree_pure ?_
    simp_all [Prod.map, Subscript.unplaced]
  cases first with
  | none =>
      cases first' with
      | none => exact hslice
      | some => simp at hfirst
  | some first =>
      cases first' with
      | none => simp at hfirst
      | some first' =>
          cases colon with
          | true => exact hslice
          | false =>
              refine (expr_agree hi).moreUntil.bind fun others others' hothers => agree_pure ?_
              simp_all [Subscript.unplaced]

theorem subscripted_agree :
    Agree k Expr.bare (subscripted inner x start) (subscripted inner' x' start') := by
  refine .drop ?_
  refine (subscript_agree hi).bracketed.bind fun sub sub' hsub => ?_
  refine (agree_expect _).bind fun rbrack rbrack' _ => .span fun _ _ => ?_
  cases sub <;> cases sub' <;> simp [Subscript.unplaced] at hsub
  · rename_i first others first' others'
    cases others <;> cases others' <;> simp at hsub
    · exact agree_makeExpr (by simp [hx, hsub])
    · exact agree_makeExpr (by simp [hx, hsub])
  · rename_i lo high max full lo' high' max' full'
    obtain ⟨hlo, hhigh, hmax, rfl⟩ := hsub
    have hmade : ∀ span span', Agree k Expr.bare (makeExpr (.slice span x lo high max full))
        (makeExpr (.slice span' x' lo' high' max' full)) :=
      fun _ _ => agree_makeExpr (by simp [hx, hlo, hhigh, hmax])
    -- Which bounds are there is the same for both, and so is which one is missed.
    cases full <;> cases high <;> cases high' <;> cases max <;> cases max' <;>
      first
      | exact hmade _ _
      | exact agree_failAt rfl
      | simp at hhigh hmax

omit hx in
theorem argRound_agree : Agree k (Round.map (Prod.map Expr.bare bareSpan))
    (argRound inner) (argRound inner') := by
  refine agree_peek.same fun t => ?_
  split
  · exact agree_pure rfl
  · exact agree_pure rfl
  · refine (expr_agree hi).bind fun y y' hy => agree_eat_bind (fun _ _ => ?_) ?_
    · refine (agree_eat _).discard.bind fun _ _ _ => agree_pure ?_
      simp [Round.map, bareSpan, hy]
    · refine (agree_eats _).same fun _ => .ite (agree_pure ?_) (agree_pure ?_)
      · simp [Round.map, hy]
      · simp [Round.map, hy]

theorem call_agree : Agree k Expr.bare (call inner x start) (call inner' x' start') := by
  refine .drop ?_
  refine (argRound_agree hi).collect.bracketed.bind fun args args' hargs => ?_
  refine .skip <| .span fun _ _ => ?_
  have hexprs : args.map (fun arg => arg.1.bare) = args'.map fun arg => arg.1.bare := by
    simpa [Function.comp_def] using congrArg (List.map Prod.fst) hargs
  exact agree_makeExpr (by simp [Function.comp_def, hx, hexprs, bareSpan_lastDots hargs])

end Suffixes

theorem elementValue_agree : Agree k Expr.bare (elementValue inner) (elementValue inner') := by
  refine (agree_isAt _).same fun _ => .ite ?_ (expr_agree hi)
  exact .here fun start start' => (hi.literalValue start start' rfl).nested

theorem element_agree : Agree k Expr.bare (element inner) (element inner') := by
  refine .here fun _ _ => (elementValue_agree hi).bind fun key key' hkey => ?_
  refine agree_eat_bind (fun _ _ => ?_) (agree_pure hkey)
  refine (elementValue_agree hi).bind fun value value' hvalue => ?_
  exact .makeExpr fun _ _ => by simp [hkey, hvalue]

theorem literalValue_agree {t t' : Option Expr} (start start' : Nat)
    (ht : t.map Expr.bare = t'.map Expr.bare) :
    Agree k Expr.bare (literalValue inner t start) (literalValue inner' t' start') := by
  refine .expect fun _ _ => ?_
  refine (element_agree hi).commaListUntil.bracketed.bind fun elements elements' helements => ?_
  refine .expect fun _ _ => ?_
  exact .makeExpr fun _ _ => by simp [ht, helements]

theorem postfixRound_agree {x x' : Expr} (hx : x.bare = x'.bare) (start start' : Nat) :
    Agree k (Option.map Expr.bare) (postfixRound inner start x)
      (postfixRound inner' start' x') := by
  refine agree_peek.same fun t => ?_
  split
  · exact agree_enter.bind fun _ _ _ => (selectorOrAssertion_agree hi hx _ _).some
  · exact agree_enter.bind fun _ _ _ => (subscripted_agree hi hx _ _).some
  · exact agree_enter.bind fun _ _ _ => (call_agree hi hx _ _).some
  · refine agree_get.bind fun c d hcd => ?_
    have hopens : opensLiteral x c.exprLevel = opensLiteral x' d.exprLevel := by
      rw [← opensLiteral_bare x, ← opensLiteral_bare x', hx,
        show c.exprLevel = d.exprLevel from congrArg Prod.fst hcd]
    rw [hopens]
    refine .ite (agree_enter.bind fun _ _ _ => ?_) (agree_pure rfl)
    exact (literalValue_agree hi _ _ (by simp [hx])).some
  · exact agree_pure rfl

theorem primary_agree : Agree k Expr.bare (primary inner) (primary inner') := by
  refine .here fun start start' => (operand_agree hi).bind fun x x' hx => ?_
  exact Agree.extend hx fun y y' hy => postfixRound_agree hi hy _ _

/-! ## Operators -/

theorem receiveExpr_agree : Agree k Expr.bare (receiveExpr inner) (receiveExpr inner') := by
  refine .here fun _ _ => .take fun _ _ => ?_
  refine (agree_eats _).same fun _ => .ite ?_ ?_
  · refine (type_agree hi).bind fun elem elem' helem => ?_
    exact .makeExpr fun _ _ => by simp [helem]
  · refine (operandUnder_agree hi).bind fun x x' hx => ?_
    exact .makeExpr fun _ _ => by simp [hx]

theorem starExpr_agree : Agree k Expr.bare (starExpr inner) (starExpr inner') := by
  refine .here fun _ _ => .take fun _ _ => ?_
  refine (operandUnder_agree hi).bind fun x x' hx => ?_
  exact .makeExpr fun _ _ => by simp [hx]

theorem unaryExpr_agree (op : UnaryOp) :
    Agree k Expr.bare (unaryExpr inner op) (unaryExpr inner' op) := by
  refine .here fun _ _ => .take fun _ _ => ?_
  refine (operandUnder_agree hi).bind fun x x' hx => ?_
  exact .makeExpr fun _ _ => by simp [hx]

theorem unary_agree : Agree k Expr.bare (unary inner) (unary inner') := by
  refine agree_peek.same fun t => ?_
  split
  · exact receiveExpr_agree hi
  · exact starExpr_agree hi
  · split
    · exact unaryExpr_agree hi _
    · exact primary_agree hi

theorem binaryRound_agree (least : Nat) {left left' : Expr} (hleft : left.bare = left'.bare)
    (start start' : Nat) :
    Agree k (Option.map Expr.bare) (binaryRound inner least start left)
      (binaryRound inner' least start' left') := by
  refine agree_peek.same fun t => ?_
  split
  · exact agree_pure rfl
  · refine .ite (agree_pure rfl) (agree_enter.bind fun _ _ _ => .take fun _ _ => ?_)
    refine (hi.binary _).bind fun right right' hright => .span fun _ _ => ?_
    exact (agree_makeExpr (by simp [hleft, hright])).bind fun x x' hx => agree_pure (by simp [hx])

theorem binary_agree (least : Nat) :
    Agree k Expr.bare (binary inner least) (binary inner' least) := by
  refine .here fun start start' => (unary_agree hi).bind fun x x' hx => ?_
  exact Agree.extend hx fun y y' hy => binaryRound_agree hi least hy _ _

end Productions

end Grammar

end GoGloss
