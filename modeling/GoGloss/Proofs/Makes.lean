import GoGloss.Proofs.Yields

/-!
# What a reader makes

`Makes p good` says that all that `p` reads satisfies `good`, wherever `p` starts. The
rules follow the steps of a production.
-/

namespace GoGloss

namespace Grammar

variable {α β : Type}

/-- All that is read satisfies `good`, wherever the reader starts. -/
def Makes (p : Parser α) (good : α → Prop) : Prop :=
  ∀ c, Yields p c fun a _ => good a

namespace Makes

variable {p : Parser α} {good : α → Prop}

theorem nested (h : Makes p good) : Makes (nested p) good := by
  intro c
  simp
  exact fun _ => h _

/-- A list between commas has at least one item. -/
theorem commaList_ne_nil : Makes (Grammar.commaList p) (· ≠ []) := by
  intro c
  refine yields_collect (I := fun _ _ => True) trivial fun as c₁ _ => ?_
  simp only [Grammar.commaRound, yields_bind]
  exact yields_true.mono fun a c₂ _ => by simp [Round.goesOn, Round.items]

theorem endedListUntil {close : Mark} (h : Makes p good) :
    Makes (endedListUntil close p) fun as => ∀ a ∈ as, good a :=
  fun _ => (yields_endedListUntil (I := fun _ => True) (fun _ _ => trivial)
    (fun c _ => (h c).mono fun _ _ ha => ⟨trivial, ha⟩) trivial).mono fun _ _ => And.right

/-- What grows round by round is good if every round keeps it so. -/
theorem extend {round : α → Parser (Option α)} (hround : ∀ a, good a → Makes (round a)
    fun b => ∀ x ∈ b, good x) {a : α} (ha : good a) : Makes (extend round a) good := by
  intro c
  refine yields_extend (I := fun a _ => good a) ha fun a c₁ ha => ?_
  refine (hround a ha c₁).mono fun b c₂ hb => ?_
  cases b with
  | none => exact ha
  | some b => exact hb b rfl

/-- What a production ends with is all that counts here. -/
theorem andThen {p : Parser β} {f : β → Parser α} (h : ∀ b, Makes (f b) good) :
    Makes (p >>= f) good :=
  fun _ => yields_bind.mpr (yields_true.mono fun b c' _ => h b c')

theorem some {p : Parser Expr} {good : Expr → Prop} (h : Makes p good) :
    Makes (some <$> p) fun t => ∀ x ∈ t, good x := by
  intro c
  rw [yields_map]
  exact (h c).mono fun x _ hx => by simpa using hx

theorem ite {b : Prop} [Decidable b] {q : Parser α} (hp : Makes p good) (hq : Makes q good) :
    Makes (if b then p else q) good :=
  fun c => yields_ite.mpr ⟨fun _ => hp c, fun _ => hq c⟩

end Makes

theorem makes_makeExpr {x : Expr} {good : Expr → Prop} (h : good x) : Makes (makeExpr x) good :=
  fun _ => yields_makeExpr.mpr h

end Grammar

end GoGloss
