import GoGloss.Proofs.Replay.Repetition

/-!
# Types read again

A type is told by its first token and mostly ends with a token of its own. The exceptions
are a name, which brackets may follow, and a signature, which a result may follow: there
the reader looks at the lexeme behind, and at the cut it sees that nothing more comes.
-/

namespace GoGloss.Grammar

variable {k : Cut} {ℓ : LevelRule}

/--
The cursor has not gone past the cut; and unless it has reached it, a brace ahead does not
open a literal for a second cursor, at level `j`, while it does not for this one.
-/
def Cursor.Settled (k : Cut) (j : Int) (c : Cursor) : Prop :=
  k.back.length ≤ c.rest.length ∧
    (k.back.length < c.rest.length → c.head.token = .mark .lbrace → 0 ≤ j → 0 ≤ c.exprLevel)

/--
`q` repeats the expression that `p` reads, also if it is in no header while `p` is in one.
An expression in a header ends in front of a brace, so that brace has to be behind the cut.
-/
class Rises (k : Cut) (p q : Parser Expr) : Prop where
  moves : ∀ c, Yields p c fun _ c' => c'.rest <:+ c.rest ∧ c'.exprLevel = c.exprLevel
  takes : ∀ c, Yields p c fun _ c' => c'.rest.length < c.rest.length
  again : ∀ c d, c.Beside k .rising d → Yields p c fun x c' =>
    c'.Settled k d.exprLevel → Reads True q d (Again k .rising d x c')

instance {p q : Parser Expr} [h : Rises k p q] : Gains k .alike 0 p q where
  moves := h.moves
  again c d hcd x c' hrun hlength := by
    have halike := hcd.level
    have hlevel := (h.moves c x c' hrun).2
    have hrising : c.Beside k .rising d := hcd.relevel ⟨halike.1, halike.2.1, halike.2.2.mp⟩
    refine (h.again c d hrising x c' hrun ⟨hlength, fun _ _ hj => ?_⟩).mono ?_
    · rw [hlevel]
      exact halike.2.2.mpr hj
    · rintro _ d' ⟨rfl, h₁, hlevel'⟩
      refine ⟨rfl, h₁.relevel ?_, hlevel'⟩
      rwa [hlevel, hlevel']
  takes := h.takes

instance {p q : Parser Expr} [h : Rises k p q] : Rises k (nested p) (nested q) where
  moves c := by
    rw [yields_nested]
    exact fun _ => (h.moves _).mono fun _ _ hmoves => hmoves
  takes c := by
    rw [yields_nested]
    exact fun _ => (h.takes _).mono fun _ _ htakes => htakes
  again c d hcd := by
    rw [yields_nested]
    intro _ x c' hrun hsettled
    refine reads_nested (by simp) fun _ => ?_
    have hinside := hcd.withDepth (c.depth + 1) (d.depth + 1)
    refine (h.again _ _ hinside x c' hrun hsettled).mono ?_
    rintro _ d' ⟨rfl, h₁, hlevel⟩
    exact ⟨rfl, h₁.withDepth _ _, hlevel⟩

/-- The productions one level further in are repeated by others. -/
class Inner.Repeats (k : Cut) (i j : Inner) : Prop where
  binary : ∀ least, Rises k (i.binary least) (j.binary least)
  unary : Rises k i.unary j.unary
  type? : ∀ ℓ, GainsSome k ℓ 0 i.type? j.type?
  literalValue : ∀ ℓ t start, Gains k ℓ 0 (i.literalValue t start) (j.literalValue t start)
  stmt : Grammar.Repeats k .alike 1 i.stmt j.stmt
  stmt_rparen : ∀ c, c.head.token = .mark .rparen → Yields i.stmt c fun _ _ => False
  ifStmt : Gains k .alike 1 i.ifStmt j.ifStmt

attribute [instance] Inner.Repeats.binary Inner.Repeats.unary Inner.Repeats.type?
  Inner.Repeats.literalValue Inner.Repeats.stmt Inner.Repeats.ifStmt

theorem Token.closes_iff {t : Token} :
    t.closes ↔ t = .eof ∨ t = .mark .rparen ∨ t = .mark .semicolon := by
  unfold Token.closes
  split <;> simp_all

section Productions

variable {i j : Inner} [h : Inner.Repeats k i j]
include h

instance : Rises k (expr i) (expr j) := by
  unfold expr
  infer_instance

instance : Rises k (operandUnder i) (operandUnder j) := by
  unfold operandUnder
  infer_instance

instance : GainsSome k ℓ 0 (type? i) (type? j) := by
  unfold type?
  infer_instance

instance : Gains k ℓ 0 (type i) (type j) :=
  .of_some inferInstance (by simp) inferInstance

/-! ## Signatures -/

instance : Gains k ℓ 1 (paramType i) (paramType j) := by
  refine .after fun pos => ?_
  split <;> infer_instance

instance (start : Nat) (t : Expr) : Repeats k ℓ 0 (instantiated i start t)
    (instantiated j start t) := by
  refine .eats_or rfl ?_ inferInstance
  refine .step fun first => Gains.repeats (.after fun others => ?_)
  refine .step fun _ => ?_
  refine .step fun span => ?_
  split <;> infer_instance

instance : Gains k ℓ 0 (typeName i) (typeName j) := by
  refine .after fun start => .step fun n => ?_
  exact .step fun t => .eats_or rfl inferInstance inferInstance

instance : Gains k ℓ 1 (paramEntry i) (paramEntry j) := by
  refine .after fun start => .after fun t => ?_
  split
  · refine .after_second fun t' => ?_
    split <;> infer_instance
  · infer_instance

instance : Gains k ℓ 0 (parameters i) (parameters j) := by
  refine .step fun _ => Gains.repeats (.after fun entries => ?_)
  refine .step fun _ => ?_
  split
  · infer_instance
  · exact (repeats_forM_makeExpr _).bind fun _ => repeats_mapM_makeField _

instance : Repeats k ℓ 0 (results i) (results j) := by
  refine .isAt_or rfl inferInstance ⟨fun c => ?_, fun c d hcd => ?_⟩
  · rw [yields_bind, yields_here, yields_bind]
    refine (Repeats.moves (k := k) (ℓ := ℓ) (e := 0) (q := type? j) c).mono fun t c₁ h₁ => ?_
    split
    · exact yields_pure.mpr h₁
    · simpa [Cursor.withBench] using h₁
  · rw [yields_bind, yields_here, yields_bind]
    intro t c₁ hrun
    simp only [reads_bind, reads_here]
    cases t with
    | none =>
        refine yields_pure.mpr fun hlength => ?_
        refine (Repeats.again (e := 0) c d hcd none c₁ hrun hlength).mono ?_
        rintro _ d₁ ⟨rfl, hagain⟩
        exact ⟨rfl, hagain⟩
    | some t =>
        -- the type starts in front of the cut, so at the same place
        intro fields c₂ hrun' hlength
        have hrest : Repeats k ℓ 0
            (do return [← makeField ⟨← spanFrom c.head.start, [], t, none⟩] : Parser (List Field))
            (do return [← makeField ⟨← spanFrom c.head.start, [], t, none⟩]) := inferInstance
        have hlt := GainsSome.takes (k := k) (ℓ := ℓ) (e := 0) (q := type? j) c _ c₁ hrun rfl
        have hle := hrest.length_le hrun'
        rw [← (hcd.ahead (by omega)).1]
        refine (Repeats.again (e := 0) c d hcd _ c₁ hrun (by omega)).mono ?_
        rintro _ d₁ ⟨rfl, h₁, hlevel₁⟩
        refine (hrest.again c₁ d₁ h₁ fields c₂ hrun' hlength).mono ?_
        rintro _ d₂ ⟨rfl, h₂, hlevel₂⟩
        exact ⟨rfl, h₂, hlevel₂.trans hlevel₁⟩

instance : Gains k ℓ 0 (signature i) (signature j) := by
  unfold signature
  infer_instance

instance : Gains k ℓ 0 (funcType i) (funcType j) := by
  unfold funcType
  infer_instance

/-! ## Composite types -/

instance : Repeats k ℓ 1 (arrayLength i) (arrayLength j) := by
  refine .step fun t => ?_
  split <;> infer_instance

instance : Gains k ℓ 0 (arrayType i) (arrayType j) := by
  unfold arrayType
  infer_instance

omit h in
instance : Repeats k ℓ 2 fieldNames fieldNames := by
  refine .step fun t => ?_
  split <;> infer_instance

instance : Gains k ℓ 1 (fieldDecl i) (fieldDecl j) := by
  refine .after fun start => .after_second fun names => ?_
  infer_instance

instance : Gains k ℓ 0 (structType i) (structType j) := by
  unfold structType
  infer_instance

/-! ## Interfaces -/

instance : Gains k ℓ 1 (typeTerm i) (typeTerm j) := by
  refine .after fun start => .after fun tilde => ?_
  split <;> infer_instance

instance (start : Nat) (left : Expr) :
    GainsSome k ℓ 1 (unionRound i start left) (unionRound j start left) := by
  unfold unionRound
  infer_instance

instance : Gains k ℓ 1 (interfaceUnion i) (interfaceUnion j) := by
  have hchain : ∀ start t, Repeats k ℓ 1 (extend (unionRound i start) t)
      (extend (unionRound j start) t) := fun start => Repeats.extend fun _ => inferInstance
  unfold interfaceUnion
  infer_instance

instance : Gains k ℓ 1 (interfaceMethod i) (interfaceMethod j) := by
  unfold interfaceMethod
  infer_instance

instance : Gains k ℓ 1 (interfaceMember i) (interfaceMember j) := by
  refine .after fun t => .after_second fun t' => ?_
  split <;> infer_instance

instance : Gains k ℓ 0 (interfaceType i) (interfaceType j) := by
  unfold interfaceType
  infer_instance

/-! ## All types -/

instance : Gains k ℓ 0 (mapType i) (mapType j) := by
  refine .after fun start => .after fun _ => ?_
  infer_instance

instance : Gains k ℓ 0 (parenType i) (parenType j) := by
  unfold parenType
  infer_instance

omit h in
theorem map_some_ne_none {α : Type} {p : Parser α} {c c' : Cursor} :
    (some <$> p) c ≠ .ok none c' := by
  intro hrun
  have hyields : Yields (some <$> p) c fun a _ => a ≠ none := by simp
  exact hyields none c' hrun rfl

instance : GainsSome k ℓ 0 (typeHere? i) (typeHere? j) := by
  refine .of_peek (fun t => ?_) (fun {t c c'} hrun => ?_) fun {t} ht => ?_
  · split <;> infer_instance
  · split at hrun
    iterate 10 exact absurd hrun map_some_ne_none
    cases hrun
    rfl
  · rcases Token.closes_iff.mp ht with rfl | rfl | rfl <;> rfl

end Productions

end GoGloss.Grammar
