import GoGloss.Proofs.Origins.Basic
import GoGloss.Proofs.Reads

/-!
# Reading the same lexemes again

What a reader takes depends on the lexemes it takes and on little behind them. Put other
lexemes behind them, and it takes the same ones again and makes the same of them, as long
as what stands behind ends whatever is read before it: a closing parenthesis does, a
semicolon does, and so does the end of the source.

A `Cut` is a place in a row of lexemes with another row to go on with. `Repeats k ℓ e p q`
says that `q` does in front of the other row what `p` does in front of the first one, or
meets the nesting limit; the two readers may have different levels to go. Most readers
look at the lexeme behind what they take, so they repeat only what ends in front of the
cut: `e` tells how many of the same lexemes have to be left. The expression level matters
only where a brace may open a literal: `ℓ` tells whether it does.
-/

namespace GoGloss

/-- Whether a token ends what is read before it. -/
def Token.closes : Token → Bool
  | .eof | .mark .rparen | .mark .semicolon => true
  | _ => false

namespace Grammar

variable {α β : Type}

/-- Two rows of lexemes to go on with, the second of which ends what was read before. -/
structure Cut where
  back : List Lexeme
  other : List Lexeme
  closed : ∀ l ∈ other.head?, l.token.closes

/-- How the expression levels of two cursors have to be related. -/
inductive LevelRule where
  /-- Not at all; no level is below that of a header. -/
  | any
  /-- Where the second cursor is in a header, the first one is. -/
  | rising
  /-- Both cursors are in a header, or none is. -/
  | alike

/-- Whether two expression levels are related as they have to be. -/
def LevelRule.fit : LevelRule → Int → Int → Prop
  | .any, i, j => -1 ≤ i ∧ -1 ≤ j
  | .rising, i, j => -1 ≤ i ∧ -1 ≤ j ∧ (0 ≤ i → 0 ≤ j)
  | .alike, i, j => -1 ≤ i ∧ -1 ≤ j ∧ (0 ≤ i ↔ 0 ≤ j)

theorem LevelRule.fit.floor {ℓ : LevelRule} {i j : Int} (h : ℓ.fit i j) : -1 ≤ i ∧ -1 ≤ j := by
  cases ℓ <;> exact ⟨h.1, by first | exact h.2 | exact h.2.1⟩

/-- Outside of headers levels are related in every way. -/
theorem LevelRule.fit_of_nonneg (ℓ : LevelRule) {i j : Int} (hi : 0 ≤ i) (hj : 0 ≤ j) : ℓ.fit i j := by
  cases ℓ <;> simp only [fit] <;> omega

theorem LevelRule.fit_header (ℓ : LevelRule) : ℓ.fit (-1) (-1) := by
  cases ℓ <;> simp [fit]

variable {k : Cut} {ℓ : LevelRule} {e : Nat}

/-- Two cursors in front of the same lexemes, and of the two rows of a cut behind them. -/
structure Cursor.Beside (k : Cut) (ℓ : LevelRule) (c d : Cursor) : Prop where
  rest : ∃ left, c.rest = left ++ k.back ∧ d.rest = left ++ k.other
  lastStop : d.lastStop = c.lastStop
  level : ℓ.fit c.exprLevel d.exprLevel

namespace Cursor.Beside

variable {c d : Cursor}

theorem withBench (h : c.Beside k ℓ d) (w w' : Workbench) :
    (c.withBench w).Beside k ℓ (d.withBench w') :=
  ⟨h.rest, h.lastStop, h.level⟩

theorem withDepth (h : c.Beside k ℓ d) (m n : Nat) :
    (c.withDepth m).Beside k ℓ (d.withDepth n) :=
  ⟨h.rest, h.lastStop, h.level⟩

theorem withExprLevel (h : c.Beside k ℓ d) {ℓ' : LevelRule} {i j : Int} (hfit : ℓ'.fit i j) :
    (c.withExprLevel i).Beside k ℓ' (d.withExprLevel j) :=
  ⟨h.rest, h.lastStop, hfit⟩

/-- Nothing else of the first cursor matters. -/
theorem congr (h : c.Beside k ℓ d) {c' : Cursor} (hrest : c'.rest = c.rest)
    (hstop : c'.lastStop = c.lastStop) (hlevel : c'.exprLevel = c.exprLevel) : c'.Beside k ℓ d :=
  ⟨hrest ▸ h.rest, hstop ▸ h.lastStop, hlevel ▸ h.level⟩

/-- The same cursors, their levels related in another way. -/
theorem relevel (h : c.Beside k ℓ d) {ℓ' : LevelRule} (hfit : ℓ'.fit c.exprLevel d.exprLevel) :
    c.Beside k ℓ' d :=
  ⟨h.rest, h.lastStop, hfit⟩

/-- In front of the cut both see the same lexeme, and stay beside each other if they take it. -/
theorem ahead (h : c.Beside k ℓ d) (hlength : k.back.length < c.rest.length) :
    c.head = d.head ∧ c.advance.Beside k ℓ d.advance := by
  obtain ⟨left, hc, hd⟩ := h.rest
  cases left with
  | nil => simp [hc] at hlength
  | cons l left =>
      have hhead : c.head = l ∧ d.head = l := by simp [Cursor.head, hc, hd]
      refine ⟨hhead.1.trans hhead.2.symm, ⟨left, by simp [hc], by simp [hd]⟩, ?_, h.level⟩
      simp [Cursor.advance, hhead]

/-- The second run has at least as many lexemes to count rounds off against. -/
theorem clock_le (h : c.Beside k ℓ d) : c.rest.length ≤ k.back.length + d.rest.length := by
  obtain ⟨left, hc, hd⟩ := h.rest
  simp only [hc, hd, List.length_append]
  omega

/-- With two lexemes in front of the cut, they see the same second token too. -/
theorem second (h : c.Beside k ℓ d) (hlength : k.back.length + 2 ≤ c.rest.length) :
    c.second = d.second := by
  obtain ⟨left, hc, hd⟩ := h.rest
  match left with
  | [] | [_] =>
      simp only [hc, List.length_append, List.length_cons, List.length_nil] at hlength
      omega
  | _ :: _ :: _ => simp [Cursor.second, hc, hd]

/-- At the cut, the second cursor sees a token that ends what was read. -/
theorem closes (h : c.Beside k ℓ d) (hlength : c.rest.length ≤ k.back.length) :
    d.head.token.closes := by
  obtain ⟨left, hc, hd⟩ := h.rest
  obtain rfl : left = [] := by
    rw [hc, List.length_append] at hlength
    exact List.eq_nil_of_length_eq_zero (by omega)
  have hclosed := k.closed
  cases hother : k.other with
  | nil => simp [Cursor.head, hd, hother, Token.closes]
  | cons l other => simpa [Cursor.head, hd, hother] using hclosed l (by simp [hother])

/-- A token that ends nothing is seen by the second cursor only where the first one sees it. -/
theorem head_ne (h : c.Beside k ℓ d) {t : Token} (ht : t.closes = false)
    (hne : c.head.token ≠ t) : d.head.token ≠ t := by
  by_cases hlength : k.back.length < c.rest.length
  · rwa [← (h.ahead hlength).1]
  · intro heq
    have hcloses := h.closes (by omega)
    simp [heq, ht] at hcloses

end Cursor.Beside

theorem Cursor.rest_ne_nil {c : Cursor} (h : c.head.token ≠ .eof) : 0 < c.rest.length := by
  cases hrest : c.rest with
  | nil => simp [Cursor.head, hrest] at h
  | cons => simp

/-- What was read before, read again from `d`. -/
def Again (k : Cut) (ℓ : LevelRule) (d : Cursor) (a : α) (c' : Cursor) : α → Cursor → Prop :=
  fun b d' => b = a ∧ c'.Beside k ℓ d' ∧ d'.exprLevel = d.exprLevel

/-- `q` repeats what `p` reads, if that leaves `e` lexemes in front of the cut. -/
class Repeats (k : Cut) (ℓ : LevelRule) (e : Nat) (p q : Parser α) : Prop where
  moves : ∀ c, Yields p c fun _ c' => c'.rest <:+ c.rest ∧ c'.exprLevel = c.exprLevel
  again : ∀ c d, c.Beside k ℓ d → Yields p c fun a c' =>
    k.back.length + e ≤ c'.rest.length → Reads True q d (Again k ℓ d a c')

/-- The same for a reader that takes a lexeme whenever it succeeds. -/
class Gains (k : Cut) (ℓ : LevelRule) (e : Nat) (p q : Parser α) : Prop extends Repeats k ℓ e p q where
  takes : ∀ c, Yields p c fun _ c' => c'.rest.length < c.rest.length

/-- The same for a reader that takes a lexeme whenever it has a result. -/
class GainsSome (k : Cut) (ℓ : LevelRule) (e : Nat) (p q : Parser (Option α)) : Prop
    extends Repeats k ℓ e p q where
  takes : ∀ c, Yields p c fun a c' => a.isSome → c'.rest.length < c.rest.length

theorem Gains.repeats {p q : Parser α} (h : Gains k ℓ e p q) : Repeats k ℓ e p q :=
  h.toRepeats

theorem Repeats.length_le {p q : Parser α} (h : Repeats k ℓ e p q) {c c' : Cursor} {a : α}
    (hrun : p c = .ok a c') : c'.rest.length ≤ c.rest.length :=
  (h.moves c a c' hrun).1.length_le

theorem Repeats.mono {p q : Parser α} {e' : Nat} (h : Repeats k ℓ e p q) (he : e ≤ e') :
    Repeats k ℓ e' p q where
  moves := h.moves
  again c d hcd a c' hrun hlength := h.again c d hcd a c' hrun (by omega)

theorem Gains.mono {p q : Parser α} {e' : Nat} (h : Gains k ℓ e p q) (he : e ≤ e') :
    Gains k ℓ e' p q where
  toRepeats := h.toRepeats.mono he
  takes := h.takes

instance (priority := low) repeats_one {p q : Parser α} [h : Repeats k ℓ 0 p q] :
    Repeats k ℓ 1 p q := h.mono (by omega)
instance (priority := low) repeats_two {p q : Parser α} [h : Repeats k ℓ 1 p q] :
    Repeats k ℓ 2 p q := h.mono (by omega)
instance (priority := low) gains_one {p q : Parser α} [h : Gains k ℓ 0 p q] :
    Gains k ℓ 1 p q := h.mono (by omega)
instance (priority := low) gainsSome_one {p q : Parser (Option α)} [h : GainsSome k ℓ 0 p q] :
    GainsSome k ℓ 1 p q where
  takes := h.takes
instance (priority := low) gainsSome_of_gains {p q : Parser (Option α)} [h : Gains k ℓ e p q] :
    GainsSome k ℓ e p q where
  takes c := (h.takes c).mono fun _ _ htakes _ => htakes

/-! ## Steps -/

section Steps

theorem Repeats.of_fails {p q : Parser α} (h : ∀ c, Yields p c fun _ _ => False) :
    Repeats k ℓ e p q where
  moves c := (h c).mono fun _ _ => False.elim
  again c _ _ := (h c).mono fun _ _ => False.elim

instance (span : Span) (fault : Fault) (q : Parser α) : Repeats k ℓ e (failAt span fault) q :=
  .of_fails (by simp)
instance (fault : Fault) (q : Parser α) : Repeats k ℓ e (failHere fault) q := .of_fails (by simp)
instance (wanted : Wanted) (q : Parser α) : Repeats k ℓ e (failExpected wanted) q :=
  .of_fails (by simp)

/-- What fails is as good as what takes something. -/
theorem Gains.of_fails {p q : Parser α} (h : ∀ c, Yields p c fun _ _ => False) :
    Gains k ℓ e p q where
  toRepeats := .of_fails h
  takes c := (h c).mono fun _ _ => False.elim

instance (wanted : Wanted) (q : Parser α) : Gains k ℓ e (failExpected wanted) q :=
  .of_fails (by simp)

instance (a : α) : Repeats k ℓ e (pure a : Parser α) (pure a) where
  moves c := by simp
  again c d hcd := by simpa [Again] using fun _ => hcd

instance : Repeats k ℓ 1 (peek : Parser Token) peek where
  moves c := by simp
  again c d hcd := by
    rw [yields_peek]
    intro hlength
    exact ⟨by rw [(hcd.ahead hlength).1], hcd, rfl⟩

instance : Repeats k ℓ 1 (here : Parser Nat) here where
  moves c := by simp
  again c d hcd := by
    rw [yields_here]
    intro hlength
    exact ⟨by rw [(hcd.ahead hlength).1], hcd, rfl⟩

instance : Repeats k ℓ 2 (peekSecond : Parser Token) peekSecond where
  moves c := by simp
  again c d hcd := by
    rw [yields_peekSecond]
    intro hlength
    exact ⟨(hcd.second hlength).symm, hcd, rfl⟩

instance (start : Nat) : Repeats k ℓ e (spanFrom start : Parser Span) (spanFrom start) where
  moves c := by simp
  again c d hcd := by
    rw [yields_spanFrom]
    intro _
    exact ⟨by rw [Cursor.spanFrom, Cursor.spanFrom, hcd.lastStop], hcd, rfl⟩

instance : Repeats k ℓ 1 (take : Parser Span) take where
  moves c := by simpa using List.tail_suffix c.rest
  again c d hcd := by
    rw [yields_take]
    intro hlength
    simp only [Cursor.advance_rest, List.length_tail] at hlength
    have hahead := hcd.ahead (by omega)
    exact ⟨by rw [hahead.1], hahead.2, rfl⟩

instance (x : Expr) : Repeats k ℓ e (makeExpr x) (makeExpr x) where
  moves c := by simp [Cursor.withBench]
  again c d hcd := yields_makeExpr.mpr fun _ => ⟨rfl, hcd.withBench _ _, rfl⟩

instance (s : Stmt) : Repeats k ℓ e (makeStmt s) (makeStmt s) where
  moves c := by simp [Cursor.withBench]
  again c d hcd := yields_makeStmt.mpr fun _ => ⟨rfl, hcd.withBench _ _, rfl⟩

instance (x : Decl) : Repeats k ℓ e (makeDecl x) (makeDecl x) where
  moves c := by simp [Cursor.withBench]
  again c d hcd := yields_makeDecl.mpr fun _ => ⟨rfl, hcd.withBench _ _, rfl⟩

instance (f : Field) : Repeats k ℓ e (makeField f) (makeField f) where
  moves c := by simp [Cursor.withBench]
  again c d hcd := yields_makeField.mpr fun _ => ⟨rfl, hcd.withBench _ _, rfl⟩

theorem gains_expect {t : Token} (ht : t ≠ .eof) : Gains k ℓ 0 (expect t) (expect t) where
  moves c := by
    rw [yields_expect]
    exact fun _ => ⟨List.tail_suffix c.rest, rfl⟩
  again c d hcd := by
    rw [yields_expect]
    intro hhead hlength
    have hrest := Cursor.rest_ne_nil (hhead ▸ ht)
    simp only [Cursor.advance_rest, List.length_tail] at hlength
    have hahead := hcd.ahead (by omega)
    exact reads_expect (by rw [← hahead.1, hhead]) ⟨by rw [hahead.1], hahead.2, rfl⟩
  takes c := by
    rw [yields_expect]
    intro hhead
    have hrest := Cursor.rest_ne_nil (hhead ▸ ht)
    simp only [Cursor.advance_rest, List.length_tail]
    omega

instance (m : Mark) : Gains k ℓ 0 (expect (.mark m) : Parser Span) (expect (.mark m)) :=
  gains_expect nofun
instance (w : Keyword) : Gains k ℓ 0 (expect (.keyword w) : Parser Span) (expect (.keyword w)) :=
  gains_expect nofun

instance : Gains k ℓ 0 name name where
  moves c := by
    rw [yields_name]
    exact fun _ _ => ⟨List.tail_suffix c.rest, rfl⟩
  again c d hcd := by
    rw [yields_name]
    intro text hhead hlength
    have hrest := Cursor.rest_ne_nil (c := c) (by simp [hhead])
    have hlength : k.back.length ≤ c.rest.tail.length := hlength
    rw [List.length_tail] at hlength
    have hahead := hcd.ahead (by omega)
    refine reads_name (by rw [← hahead.1, hhead]) ?_
    exact ⟨by rw [hahead.1], hahead.2.withBench _ _, rfl⟩
  takes c := by
    rw [yields_name]
    intro text hhead
    have hrest := Cursor.rest_ne_nil (c := c) (by simp [hhead])
    show c.rest.tail.length < c.rest.length
    rw [List.length_tail]
    omega

end Steps

/-! ## One after the other -/

section Sequences

variable {p p' : Parser α} {f f' : α → Parser β}

/-- The first reader may need other lexemes left than the second, if there are that many then. -/
theorem Repeats.bind_of_left {e' : Nat} (hp : Repeats k ℓ e' p p')
    (hf : ∀ a, Repeats k ℓ e (f a) (f' a))
    (hleft : ∀ a c₁, Yields (f a) c₁ fun _ c₂ =>
      k.back.length + e ≤ c₂.rest.length → k.back.length + e' ≤ c₁.rest.length) :
    Repeats k ℓ e (p >>= f) (p' >>= f') where
  moves c := by
    rw [yields_bind]
    refine (hp.moves c).mono fun a c₁ h₁ => ((hf a).moves c₁).mono fun b c₂ h₂ => ?_
    exact ⟨h₂.1.trans h₁.1, h₂.2.trans h₁.2⟩
  again c d hcd := by
    rw [yields_bind]
    intro a c₁ hrun b c₂ hrun' hlength
    rw [reads_bind]
    refine (hp.again c d hcd a c₁ hrun (hleft a c₁ b c₂ hrun' hlength)).mono ?_
    rintro _ d₁ ⟨rfl, h₁, hlevel₁⟩
    refine ((hf _).again c₁ d₁ h₁ b c₂ hrun' hlength).mono ?_
    rintro _ d₂ ⟨rfl, h₂, hlevel₂⟩
    exact ⟨rfl, h₂, hlevel₂.trans hlevel₁⟩

theorem Repeats.bind (hp : Repeats k ℓ e p p') (hf : ∀ a, Repeats k ℓ e (f a) (f' a)) :
    Repeats k ℓ e (p >>= f) (p' >>= f') :=
  hp.bind_of_left hf fun a _ _ _ hrun h => Nat.le_trans h ((hf a).length_le hrun)

theorem Repeats.step [hp : Repeats k ℓ e p p'] (hf : ∀ a, Repeats k ℓ e (f a) (f' a)) :
    Repeats k ℓ e (p >>= f) (p' >>= f') :=
  hp.bind hf

theorem Gains.bind (hp : Gains k ℓ e p p') (hf : ∀ a, Repeats k ℓ e (f a) (f' a)) :
    Gains k ℓ e (p >>= f) (p' >>= f') where
  toRepeats := hp.toRepeats.bind hf
  takes c := by
    rw [yields_bind]
    intro a c₁ hrun b c₂ hrun'
    exact Nat.lt_of_le_of_lt ((hf a).length_le hrun') (hp.takes c a c₁ hrun)

theorem Gains.step [hp : Gains k ℓ e p p'] (hf : ∀ a, Repeats k ℓ e (f a) (f' a)) :
    Gains k ℓ e (p >>= f) (p' >>= f') :=
  hp.bind hf

/-- If a lexeme is taken afterwards, the first reader has ended one lexeme earlier. -/
theorem Repeats.bind_gains {e' : Nat} (he : e' ≤ e + 1) (hp : Repeats k ℓ e' p p')
    (hf : ∀ a, Gains k ℓ e (f a) (f' a)) : Gains k ℓ e (p >>= f) (p' >>= f') where
  toRepeats := hp.bind_of_left (fun a => (hf a).toRepeats) fun a c₁ b c₂ hrun h => by
    have hlt := (hf a).takes c₁ b c₂ hrun
    omega
  takes c := by
    rw [yields_bind]
    intro a c₁ hrun b c₂ hrun'
    exact Nat.lt_of_lt_of_le ((hf a).takes c₁ b c₂ hrun') (hp.length_le hrun)

/-- In front of what takes a lexeme, the next lexeme may be looked at. -/
theorem Gains.after [hp : Repeats k ℓ 1 p p'] (hf : ∀ a, Gains k ℓ e (f a) (f' a)) :
    Gains k ℓ e (p >>= f) (p' >>= f') :=
  hp.bind_gains (by omega) hf

/-- In front of what leaves one after it, so may the one behind. -/
theorem Gains.after_second [hp : Repeats k ℓ 2 p p'] (hf : ∀ a, Gains k ℓ 1 (f a) (f' a)) :
    Gains k ℓ 1 (p >>= f) (p' >>= f') :=
  hp.bind_gains (by omega) hf

instance [hp : Repeats k ℓ e p p'] [hf : ∀ a, Repeats k ℓ e (f a) (f' a)] :
    Repeats k ℓ e (p >>= f) (p' >>= f') :=
  hp.bind hf

instance (priority := low) [hp : Repeats k ℓ 1 p p'] [hf : ∀ a, Gains k ℓ e (f a) (f' a)] :
    Gains k ℓ e (p >>= f) (p' >>= f') :=
  .after hf

instance [hp : Gains k ℓ e p p'] [hf : ∀ a, Repeats k ℓ e (f a) (f' a)] :
    Gains k ℓ e (p >>= f) (p' >>= f') :=
  hp.bind hf

instance {f : α → β} [hp : Repeats k ℓ e p p'] : Repeats k ℓ e (f <$> p) (f <$> p') := by
  rw [map_eq_pure_bind, map_eq_pure_bind]
  infer_instance

instance {f : α → β} [hp : Gains k ℓ e p p'] : Gains k ℓ e (f <$> p) (f <$> p') := by
  rw [map_eq_pure_bind, map_eq_pure_bind]
  infer_instance

instance [hp : Repeats k ℓ e p p'] : Repeats k ℓ e (discard p) (discard p') :=
  inferInstanceAs (Repeats k ℓ e ((fun _ => ()) <$> p) ((fun _ => ()) <$> p'))

instance [hp : Gains k ℓ e p p'] : Gains k ℓ e (discard p) (discard p') :=
  inferInstanceAs (Gains k ℓ e ((fun _ => ()) <$> p) ((fun _ => ()) <$> p'))

instance {b : Prop} [Decidable b] {q q' : Parser α} [hp : Repeats k ℓ e p p']
    [hq : Repeats k ℓ e q q'] : Repeats k ℓ e (if b then p else q) (if b then p' else q') := by
  split
  · exact hp
  · exact hq

instance : GainsSome k ℓ e (pure none : Parser (Option α)) (pure none) where
  takes c := by simp

theorem GainsSome.step {f f' : α → Parser (Option β)} [hp : Repeats k ℓ e p p']
    (hf : ∀ a, GainsSome k ℓ e (f a) (f' a)) : GainsSome k ℓ e (p >>= f) (p' >>= f') where
  takes c := by
    rw [yields_bind]
    intro a c₁ hrun b c₂ hrun' hsome
    exact Nat.lt_of_lt_of_le ((hf a).takes c₁ b c₂ hrun' hsome) (hp.length_le hrun)

instance {f f' : α → Parser (Option β)} [hp : Repeats k ℓ e p p']
    [hf : ∀ a, GainsSome k ℓ e (f a) (f' a)] : GainsSome k ℓ e (p >>= f) (p' >>= f') :=
  .step hf

/-- Where a result is asked for, a lexeme is taken. -/
theorem Gains.of_some {p p' : Parser (Option α)} {f f' : Option α → Parser β}
    (hp : GainsSome k ℓ e p p') (hnone : ∀ c, Yields (f none) c fun _ _ => False)
    (hsome : ∀ a, Repeats k ℓ e (f (some a)) (f' (some a))) :
    Gains k ℓ e (p >>= f) (p' >>= f') where
  toRepeats := hp.toRepeats.bind fun a => by
    cases a with
    | none => exact .of_fails hnone
    | some a => exact hsome a
  takes c := by
    rw [yields_bind]
    intro a c₁ hrun b c₂ hrun'
    cases a with
    | none => exact (hnone c₁ b c₂ hrun').elim
    | some a => exact Nat.lt_of_le_of_lt ((hsome a).length_le hrun') (hp.takes c _ c₁ hrun rfl)

instance {b : Prop} [Decidable b] {p p' q q' : Parser (Option α)} [hp : GainsSome k ℓ e p p']
    [hq : GainsSome k ℓ e q q'] : GainsSome k ℓ e (if b then p else q) (if b then p' else q') := by
  split
  · exact hp
  · exact hq

end Sequences

instance (t : Token) : Repeats k ℓ 1 (isAt t : Parser Bool) (isAt t) := by
  unfold isAt
  infer_instance

instance (t : Token) : Repeats k ℓ 1 (eat t : Parser (Option Span)) (eat t) := by
  unfold eat
  infer_instance

instance (t : Token) : Repeats k ℓ 1 (eats t : Parser Bool) (eats t) := by
  unfold eats
  infer_instance

instance : Repeats k ℓ 1 (expectEnd : Parser Unit) expectEnd := by
  refine .step fun t => ?_
  split <;> infer_instance

instance : GainsSome k ℓ 1 (textLiteral? : Parser (Option Literal)) textLiteral? where
  toRepeats := .step fun t => by split <;> infer_instance
  takes c := by
    refine yields_textLiteral?.mpr ⟨fun kind text hhead _ _ => ?_, nofun⟩
    have hrest := Cursor.rest_ne_nil (c := c) (by simp [hhead])
    rw [Cursor.advance_rest, List.length_tail]
    omega

theorem repeats_forM_makeExpr (xs : List Expr) : Repeats k ℓ e
    (xs.forM fun x => discard (makeExpr x)) (xs.forM fun x => discard (makeExpr x)) := by
  induction xs with
  | nil => exact inferInstanceAs (Repeats k ℓ e (pure _) (pure _))
  | cons x xs ih => exact Repeats.step fun _ => ih

theorem repeats_mapM_makeField (fs : List Field) :
    Repeats k ℓ e (fs.mapM makeField) (fs.mapM makeField) := by
  induction fs with
  | nil => exact inferInstanceAs (Repeats k ℓ e (pure _) (pure _))
  | cons f fs ih =>
      simp only [List.mapM_cons]
      exact .step fun _ => ih.bind fun _ => inferInstance

/-! ## At the cut -/

section Edge

variable {p p' q q' : Parser α} {t : Token}

/-- What is told by its first token is not begun at the cut. -/
theorem GainsSome.of_peek {f f' : Token → Parser (Option α)}
    (h : ∀ t, GainsSome k ℓ 0 (f t) (f' t)) (hnone : ∀ {t c c'}, f t c = .ok none c' → c' = c)
    (hclosed : ∀ {t}, t.closes → f' t = pure none) :
    GainsSome k ℓ 0 (peek >>= f) (peek >>= f') where
  moves c := by
    rw [yields_bind, yields_peek]
    exact (h _).moves c
  again c d hcd := by
    rw [yields_bind, yields_peek]
    intro a c' hrun hlength
    rw [reads_bind, reads_peek]
    by_cases hlt : k.back.length < c.rest.length
    · rw [← (hcd.ahead hlt).1]
      exact (h _).again c d hcd a c' hrun hlength
    · cases a with
      | none =>
          obtain rfl := hnone hrun
          rw [hclosed (hcd.closes (by omega))]
          exact ⟨rfl, hcd, rfl⟩
      | some a =>
          have htakes := (h _).takes c _ c' hrun rfl
          omega
  takes c := by
    rw [yields_bind, yields_peek]
    exact (h _).takes c

/-- What takes a lexeme may be told by its first token. -/
theorem Gains.of_peek {f f' : Token → Parser α}
    (h : ∀ t, ∃ p p', Gains k ℓ 0 p p' ∧ (∀ c : Cursor, c.head.token = t → f t c = p c) ∧
      ∀ d : Cursor, d.head.token = t → f' t d = p' d) :
    Gains k ℓ 0 (peek >>= f) (peek >>= f') where
  moves c := by
    rw [yields_bind, yields_peek]
    obtain ⟨p, p', hp, heq, -⟩ := h c.head.token
    exact fun a c' hrun => hp.moves c a c' (by rw [← hrun, heq c rfl])
  again c d hcd := by
    rw [yields_bind, yields_peek]
    intro a c' hrun hlength
    obtain ⟨p, p', hp, heq, heq'⟩ := h c.head.token
    rw [heq c rfl] at hrun
    have hlt := hp.takes c a c' hrun
    have hhead := (hcd.ahead (by omega)).1
    rw [reads_bind, reads_peek, ← hhead]
    unfold Reads
    rw [heq' d (by rw [hhead])]
    exact hp.again c d hcd a c' hrun hlength
  takes c := by
    rw [yields_bind, yields_peek]
    obtain ⟨p, p', hp, heq, -⟩ := h c.head.token
    exact fun a c' hrun => hp.takes c a c' (by rw [← hrun, heq c rfl])

/-- To take the token that is ahead is to take that token. -/
theorem take_bind_eq {f : Span → Parser α} {c : Cursor} (h : c.head.token = t) :
    (take >>= f) c = (expect t >>= f) c := by
  have hexpect : (expect t : Parser Span) c = .ok c.head.span c.advance := by
    have hreads : Reads False (expect t) c fun s c' => s = c.head.span ∧ c' = c.advance :=
      reads_expect h ⟨rfl, rfl⟩
    unfold Reads at hreads
    split at hreads
    · rename_i hrun
      rw [hrun, hreads.1, hreads.2]
    · exact hreads.1.elim
  change EStateM.bind take f c = EStateM.bind (expect t) f c
  unfold EStateM.bind
  rw [hexpect]
  rfl

/-- What starts with a token that ends nothing is not begun at the cut. -/
theorem Repeats.isAt_or (ht : t.closes = false) (hp : Gains k ℓ 0 p p') (hq : Repeats k ℓ 0 q q') :
    Repeats k ℓ 0 (do if ← isAt t then p else q) (do if ← isAt t then p' else q') where
  moves c := by
    simp only [yields_bind, yields_isAt, yields_ite]
    exact ⟨fun _ => hp.moves c, fun _ => hq.moves c⟩
  again c d hcd := by
    simp only [yields_bind, yields_isAt, yields_ite, reads_bind, reads_isAt, decide_eq_true_eq]
    refine ⟨fun hhead a c' hrun hlength => ?_, fun hhead a c' hrun hlength => ?_⟩
    · have hlt := hp.takes c a c' hrun
      rw [if_pos (by rw [← (hcd.ahead (by omega)).1, hhead])]
      exact hp.again c d hcd a c' hrun hlength
    · rw [if_neg (hcd.head_ne ht hhead)]
      exact hq.again c d hcd a c' hrun hlength

theorem Repeats.eats_or (ht : t.closes = false) (hp : Repeats k ℓ 0 p p')
    (hq : Repeats k ℓ 0 q q') :
    Repeats k ℓ 0 (do if ← eats t then p else q) (do if ← eats t then p' else q') where
  moves c := by
    simp only [yields_bind, yields_eats, if_true, if_false, Bool.false_eq_true]
    refine ⟨fun _ => (hp.moves _).mono fun _ c' h => ?_, fun _ => hq.moves c⟩
    exact ⟨h.1.trans (List.tail_suffix c.rest), h.2⟩
  again c d hcd := by
    simp only [yields_bind, yields_eats, if_true, if_false, Bool.false_eq_true, reads_bind,
      reads_eats]
    refine ⟨fun hhead a c' hrun hlength => ?_, fun hhead a c' hrun hlength => ?_⟩
    · have hrest : 0 < c.rest.length := by
        refine Cursor.rest_ne_nil fun heof => ?_
        simp [← hhead, heof, Token.closes] at ht
      have hle := hp.length_le hrun
      rw [Cursor.advance_rest, List.length_tail] at hle
      have hahead := hcd.ahead (by omega)
      rw [if_pos (by rw [← hahead.1, hhead])]
      exact hp.again c.advance d.advance hahead.2 a c' hrun hlength
    · rw [if_neg (hcd.head_ne ht hhead)]
      exact hq.again c d hcd a c' hrun hlength

end Edge

/-! ## Nesting -/

section Nesting

variable {p p' : Parser α}

instance : Repeats k ℓ e (enter : Parser Unit) enter where
  moves c := by simp
  again c d hcd := by
    rw [yields_enter]
    exact fun _ _ => reads_enter (by simp) fun _ => ⟨rfl, hcd.withDepth _ _, rfl⟩

theorem Repeats.nested (hp : Repeats k ℓ e p p') : Repeats k ℓ e (nested p) (nested p') where
  moves c := by
    rw [yields_nested]
    exact fun _ => (hp.moves _).mono fun _ _ h => h
  again c d hcd := by
    rw [yields_nested]
    intro _ a c' hrun hlength
    refine reads_nested (by simp) fun _ => ?_
    refine (hp.again _ _ (hcd.withDepth _ _) a c' hrun hlength).mono ?_
    rintro _ d' ⟨rfl, h, hlevel⟩
    exact ⟨rfl, h.withDepth _ _, hlevel⟩

instance [hp : Repeats k ℓ e p p'] : Repeats k ℓ e (nested p) (nested p') :=
  hp.nested

instance [hp : Gains k ℓ e p p'] : Gains k ℓ e (nested p) (nested p') where
  toRepeats := hp.toRepeats.nested
  takes c := by
    rw [yields_nested]
    exact fun _ => (hp.takes _).mono fun _ _ h => h

instance {p p' : Parser (Option α)} [hp : GainsSome k ℓ e p p'] :
    GainsSome k ℓ e (nested p) (nested p') where
  takes c := by
    rw [yields_nested]
    exact fun _ => (hp.takes _).mono fun _ _ h => h

/-- Inside brackets the levels are alike, whatever they are outside. -/
instance [hp : Repeats k .alike e p p'] : Repeats k ℓ e (bracketed p) (bracketed p') where
  moves c := by
    rw [yields_bracketed]
    refine (hp.moves _).mono fun _ c' h => ⟨h.1, ?_⟩
    rw [Cursor.withExprLevel_exprLevel, h.2, Cursor.withExprLevel_exprLevel]
    omega
  again c d hcd := by
    rw [yields_bracketed]
    intro a c' hrun hlength
    have hfloor := hcd.level.floor
    have hlevel := (hp.moves _ a c' hrun).2
    rw [Cursor.withExprLevel_exprLevel] at hlevel
    rw [reads_bracketed]
    have hinside := hcd.withExprLevel (i := c.exprLevel + 1) (j := d.exprLevel + 1)
      (LevelRule.fit_of_nonneg .alike (by omega) (by omega))
    refine (hp.again _ _ hinside a c' hrun hlength).mono ?_
    rintro _ d' ⟨rfl, h, hlevel'⟩
    rw [Cursor.withExprLevel_exprLevel] at hlevel'
    have hback : c'.exprLevel - 1 = c.exprLevel ∧ d'.exprLevel - 1 = d.exprLevel := by omega
    refine ⟨rfl, h.withExprLevel ?_, hback.2⟩
    rw [hback.1, hback.2]
    exact hcd.level

instance [hp : Gains k .alike e p p'] : Gains k ℓ e (bracketed p) (bracketed p') where
  takes c := by
    rw [yields_bracketed]
    exact (hp.takes _).mono fun _ _ h => h

/-- In a header both levels are those of a header. -/
theorem Repeats.inHeader (hp : Repeats k .alike e p p') :
    Repeats k ℓ e (inHeader p) (inHeader p') where
  moves c := by
    rw [yields_inHeader]
    exact (hp.moves _).mono fun _ c' h => ⟨h.1, rfl⟩
  again c d hcd := by
    rw [yields_inHeader]
    intro a c' hrun hlength
    have hinside := hp.again _ _ (hcd.withExprLevel (LevelRule.fit_header _)) a c' hrun hlength
    simp only [Grammar.inHeader, leavingExprLevel, reads_bind, reads_get, reads_modify, reads_pure]
    refine hinside.mono ?_
    rintro _ d' ⟨rfl, h, -⟩
    exact ⟨rfl, h.withExprLevel hcd.level, rfl⟩

instance [hp : Repeats k .alike e p p'] : Repeats k ℓ e (inHeader p) (inHeader p') :=
  hp.inHeader

end Nesting

end Grammar

end GoGloss
