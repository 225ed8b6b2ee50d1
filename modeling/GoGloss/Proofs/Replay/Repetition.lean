import GoGloss.Proofs.Replay.Basic

/-!
# Repetitions read again

A repetition counts its rounds off against the lexemes ahead, and there may be fewer of
them the second time. That does no harm: rounds that go on take a lexeme each, and they
take them in front of the cut.
-/

namespace GoGloss.Grammar

variable {α : Type} {k : Cut} {ℓ : LevelRule} {e : Nat}

/-! ## Lists -/

/-- A round that goes on has taken a lexeme. -/
def Advancing (round : Parser (Round α)) : Prop :=
  ∀ c, Yields round c fun r c' => r.goesOn → c'.rest.length < c.rest.length

section Collect

variable {round round' : Parser (Round α)} (h : Repeats k ℓ e round round')
include h

theorem Repeats.moves_collectFor (clock : List Lexeme) (items : List α) (c : Cursor) :
    Yields (collectFor round clock items) c fun _ c' =>
      c'.rest <:+ c.rest ∧ c'.exprLevel = c.exprLevel := by
  induction clock generalizing items c with
  | nil =>
      rw [collectFor, yields_bind]
      refine (h.moves c).mono fun r c₁ h₁ => ?_
      cases r <;> simp [h₁]
  | cons l clock ih =>
      rw [collectFor, yields_bind]
      refine (h.moves c).mono fun r c₁ h₁ => ?_
      cases r with
      | done | last => simp [h₁]
      | more item => exact (ih _ c₁).mono fun _ c₂ h₂ => ⟨h₂.1.trans h₁.1, h₂.2.trans h₁.2⟩

/-- A round that ends a list ends it again. -/
theorem Repeats.again_stop {c c' d : Cursor} {r : Round α} (hcd : c.Beside k ℓ d)
    (hrun : round c = .ok r c') (hr : r.goesOn = false)
    (hlength : k.back.length + e ≤ c'.rest.length) (clock : List Lexeme) (items : List α) :
    Reads True (collectFor round' clock items) d (Again k ℓ d (r.items items.reverse) c') := by
  refine reads_collectFor_stop ((h.again c d hcd r c' hrun hlength).mono ?_)
  rintro _ d' ⟨rfl, hagain⟩
  exact ⟨hr, rfl, hagain⟩

/-- The clock of the second run lasts as long as there are lexemes in front of the cut. -/
theorem Repeats.again_collectFor (hround : Advancing round) (clock clock' : List Lexeme)
    (items : List α) {c d : Cursor} (hcd : c.Beside k ℓ d)
    (hclock : c.rest.length ≤ k.back.length + clock'.length) :
    Yields (collectFor round clock items) c fun as c' => k.back.length + e ≤ c'.rest.length →
      Reads True (collectFor round' clock' items) d (Again k ℓ d as c') := by
  induction clock generalizing clock' items c d with
  | nil =>
      rw [collectFor, yields_bind]
      intro r c₁ hrun as c' hrest hlength
      cases r with
      | done | last =>
          cases hrest
          simpa [Round.items] using h.again_stop hcd hrun rfl hlength clock' items
      | more item => cases hrest
  | cons l clock ih =>
      rw [collectFor, yields_bind]
      intro r c₁ hrun as c' hrest hlength
      cases r with
      | done | last =>
          cases hrest
          simpa [Round.items] using h.again_stop hcd hrun rfl hlength clock' items
      | more item =>
          have hlt := hround c _ c₁ hrun rfl
          have hle := (h.moves_collectFor clock _ c₁ as c' hrest).1.length_le
          have hticks : 0 < clock'.length := by omega
          refine reads_collectFor_step (List.length_pos_iff.mp hticks) ?_
          refine (h.again c d hcd _ c₁ hrun (by omega)).mono ?_
          rintro _ d₁ ⟨rfl, h₁, hlevel⟩
          refine ⟨item, rfl, (ih clock'.tail _ h₁ ?_ as c' hrest hlength).mono ?_⟩
          · rw [List.length_tail]
            omega
          · rintro _ d' ⟨rfl, h₂, hlevel'⟩
            exact ⟨rfl, h₂, hlevel'.trans hlevel⟩

theorem Repeats.collect (hround : Advancing round) :
    Repeats k ℓ e (collect round) (collect round') where
  moves c := by
    rw [Grammar.collect, yields_bind, yields_get]
    exact h.moves_collectFor c.rest [] c
  again c d hcd := by
    rw [Grammar.collect, yields_bind, yields_get]
    intro as c' hrun hlength
    rw [Grammar.collect, reads_bind, reads_get]
    exact h.again_collectFor hround c.rest d.rest [] hcd hcd.clock_le as c' hrun hlength

omit h in
theorem Gains.collect (h : Gains k ℓ e round round') : Gains k ℓ e (collect round) (collect round')
    where
  toRepeats := h.repeats.collect fun c => (h.takes c).mono fun _ _ htakes _ => htakes
  takes c := by
    rw [Grammar.collect, yields_bind, yields_get, collectFor.eq_def, yields_bind]
    refine (h.takes c).mono fun r c₁ hlt => ?_
    cases r with
    | done | last => exact yields_pure.mpr hlt
    | more item =>
        dsimp only
        split
        · exact yields_failHere
        · refine (h.repeats.moves_collectFor _ [item] c₁).mono fun _ c₂ h₂ => ?_
          exact Nat.lt_of_le_of_lt h₂.1.length_le hlt

end Collect

section Lists

variable {item item' : Parser α} [h : Repeats k ℓ 1 item item']
include h

instance : Repeats k ℓ 1 (commaRound item) (commaRound item') := by
  unfold commaRound
  infer_instance

omit h in
/-- A comma is taken before the next round. -/
theorem advancing_commaRound {k : Cut} {ℓ : LevelRule} (h : Repeats k ℓ 1 item item') :
    Advancing (commaRound item) := by
  intro c
  rw [commaRound, yields_bind]
  intro a c₁ hrun
  have hle := h.length_le hrun
  simp only [yields_bind, yields_eats, if_true, if_false, Bool.false_eq_true, yields_pure]
  refine ⟨fun hcomma _ => ?_, fun _ => by simp [Round.goesOn]⟩
  have hrest := Cursor.rest_ne_nil (c := c₁) (by simp [hcomma])
  rw [Cursor.advance_rest, List.length_tail]
  omega

instance : Repeats k ℓ 1 (commaList item) (commaList item') :=
  Repeats.collect inferInstance (advancing_commaRound h)

instance (close : Mark) :
    Repeats k ℓ 1 (commaListUntil close item) (commaListUntil close item') := by
  refine Repeats.collect (.step fun t => ?_) fun c => ?_
  · split <;> infer_instance
  · rw [yields_bind, yields_peek]
    split
    · simp [Round.goesOn]
    · rw [yields_ite]
      exact ⟨fun _ => by simp [Round.goesOn], fun _ => advancing_commaRound h c⟩

instance (close : Mark) : Repeats k ℓ 1 (moreUntil close item) (moreUntil close item') := by
  refine Repeats.collect inferInstance fun c => ?_
  simp only [yields_bind, yields_eats, yields_ite, yields_pure]
  refine ⟨fun hcomma => ⟨fun _ => ?_, nofun⟩, fun _ => ⟨nofun, fun _ => by simp [Round.goesOn]⟩⟩
  rw [yields_isAt]
  refine ⟨fun _ => by simp [Round.goesOn], fun _ a c₁ hrun _ => ?_⟩
  have hle := h.length_le hrun
  have hrest := Cursor.rest_ne_nil (c := c) (by simp [hcomma])
  rw [Cursor.advance_rest, List.length_tail] at hle
  omega

end Lists

instance {item item' : Parser α} (close : Mark) [h : Gains k ℓ 1 item item'] :
    Repeats k ℓ 1 (endedListUntil close item) (endedListUntil close item') := by
  refine Repeats.collect (.step fun t => ?_) fun c => ?_
  · split <;> infer_instance
  · rw [yields_bind, yields_peek]
    split
    · simp [Round.goesOn]
    · rw [yields_ite]
      refine ⟨fun _ => by simp [Round.goesOn], fun _ => ?_⟩
      rw [yields_bind]
      intro a c₁ hrun
      have hlt := h.takes c a c₁ hrun
      rw [yields_bind, yields_expectEnd]
      have htail : c₁.rest.tail.length ≤ c₁.rest.length := by simp
      exact ⟨fun _ => yields_pure.mpr fun _ => Nat.lt_of_le_of_lt htail hlt,
        fun _ => yields_pure.mpr fun _ => hlt⟩

instance {item item' : Parser α} [h : Gains k ℓ 1 item item'] :
    Gains k ℓ 1 (commaList item) (commaList item') := by
  refine Gains.collect ?_
  unfold commaRound
  infer_instance

instance : Gains k ℓ 1 nameList nameList := by
  unfold nameList
  infer_instance

/-! ## Chains -/

section Chains

variable {round round' : Expr → Parser (Option Expr)} {c c' d : Cursor} {x y : Expr} {j : Int}
  {E : Cursor → Prop}

/--
The rounds of a chain that add something are repeated at level `j`, if they end where `E`
holds. A round that goes on starts there too.
-/
structure Rerun (k : Cut) (ℓ : LevelRule) (j : Int) (E : Cursor → Prop)
    (round round' : Expr → Parser (Option Expr)) : Prop where
  bound : ∀ {c}, E c → k.back.length ≤ c.rest.length
  takes : ∀ {y z c c'}, round y c = .ok (some z) c' → c'.rest.length < c.rest.length
  start : ∀ {y z c c'}, round y c = .ok (some z) c' → E c' → E c
  again : ∀ {y z c c' d}, c.Beside k ℓ d → d.exprLevel = j → round y c = .ok (some z) c' →
    E c' → Reads True (round' y) d (Again k ℓ d (some z) c')

/-- What was built in some rounds is built again, and the second run goes on from there. -/
theorem Grown.rerun {post : Expr → Cursor → Prop} (hrounds : Rerun k ℓ j E round round')
    (h : Grown round x c y c') (hE : E c') (hcd : c.Beside k ℓ d) (hj : d.exprLevel = j)
    (hpost : ∀ clock d', c'.Beside k ℓ d' → d'.exprLevel = j →
      c'.rest.length ≤ k.back.length + clock.length →
      Reads True (extendFor round' clock y) d' post)
    (clock : List Lexeme) (hclock : c.rest.length ≤ k.back.length + clock.length) :
    Reads True (extendFor round' clock x) d post := by
  induction h with
  | refl => exact hpost clock d hcd hj hclock
  | @step y z c₁ c₂ _ hround ih =>
      refine ih (hrounds.start hround hE) fun clock d₁ h₁ hj₁ hclock₁ => ?_
      have hbound := hrounds.bound hE
      have hlt := hrounds.takes hround
      have hticks : 0 < clock.length := by omega
      refine reads_extendFor_step (List.length_pos_iff.mp hticks) ?_
      refine (hrounds.again h₁ hj₁ hround hE).mono ?_
      rintro _ d₂ ⟨rfl, h₂, hlevel⟩
      refine ⟨z, rfl, hpost clock.tail d₂ h₂ (hlevel.trans hj₁) ?_⟩
      rw [List.length_tail]
      omega

/-- The rounds started where `E` holds if they ended there. -/
theorem Grown.start (hrounds : Rerun k ℓ j E round round') (h : Grown round x c y c')
    (hE : E c') : E c := by
  induction h with
  | refl => exact hE
  | step _ hround ih => exact ih (hrounds.start hround hE)

theorem Grown.moves (h : Grown round x c y c')
    (hmoves : ∀ y c, Yields (round y) c fun _ c' =>
      c'.rest <:+ c.rest ∧ c'.exprLevel = c.exprLevel) :
    c'.rest <:+ c.rest ∧ c'.exprLevel = c.exprLevel := by
  induction h with
  | refl => exact ⟨List.suffix_rfl, rfl⟩
  | step _ hround ih =>
      have hmove := hmoves _ _ _ _ hround
      exact ⟨hmove.1.trans ih.1, hmove.2.trans ih.2⟩

/-- A chain is built round by round, and ends when a round adds nothing. -/
theorem yields_extend_stop : Yields (extend round x) c fun y c' =>
    ∃ c₁, Grown round x c y c₁ ∧ round y c₁ = .ok none c' := by
  refine yields_extend_until (I := Grown round x c) .refl fun y c₁ hgrown z c₂ hrun => ⟨?_, ?_⟩
  · rintro rfl
    exact ⟨c₁, hgrown, hrun⟩
  · rintro z rfl
    exact .step hgrown hrun

theorem moves_extend (hmoves : ∀ y c, Yields (round y) c fun _ c' =>
      c'.rest <:+ c.rest ∧ c'.exprLevel = c.exprLevel) (x : Expr) (c : Cursor) :
    Yields (extend round x) c fun _ c' => c'.rest <:+ c.rest ∧ c'.exprLevel = c.exprLevel := by
  refine yields_extend_stop.mono fun y c' ⟨c₁, hgrown, hrun⟩ => ?_
  have h₁ := hgrown.moves hmoves
  have h₂ := hmoves y c₁ none c' hrun
  exact ⟨h₂.1.trans h₁.1, h₂.2.trans h₁.2⟩

theorem Repeats.extend (h : ∀ y, GainsSome k ℓ e (round y) (round' y)) (x : Expr) :
    Repeats k ℓ e (extend round x) (extend round' x) where
  moves := moves_extend (fun y => (h y).moves) x
  again c d hcd y c' hrun hlength := by
    obtain ⟨c₁, hgrown, hstop⟩ := yields_extend_stop y c' hrun
    have hle := (h y).length_le hstop
    have htakes : ∀ {y z c c'}, round y c = .ok (some z) c' → c'.rest.length < c.rest.length :=
      fun hround => (h _).takes _ _ _ hround rfl
    have hrounds : Rerun k ℓ d.exprLevel (fun c => k.back.length + e ≤ c.rest.length)
        round round' :=
      { bound := fun hE => by omega
        takes := htakes
        start := fun hround hE => by have := htakes hround; omega
        again := fun h₁ _ hround hE => (h _).again _ _ h₁ _ _ hround hE }
    rw [reads_extend_iff]
    refine hgrown.rerun hrounds (by omega) hcd rfl (fun clock d₁ h₁ hj _ => ?_) d.rest
      hcd.clock_le
    refine reads_extendFor_stop (((h y).again c₁ d₁ h₁ _ c' hstop hlength).mono ?_)
    rintro _ d' ⟨rfl, h₂, hlevel⟩
    exact ⟨rfl, rfl, h₂, hlevel.trans hj⟩

end Chains

end GoGloss.Grammar
