import GoGloss.Proofs.Yields

/-!
# Balanced brackets

Brackets are balanced if they are properly nested and closed each by one of its own
kind. `Balanced` says so as a grammar, `unwinds` checks it with a stack, and the two
agree (`balanced_iff`).

Between where a reader starts and where it stops, every bracket that it took has been
closed. This is so whatever the reader returns, so it is carried from part to part by
classes, and most readers are in them because their parts are. A reader may be balanced
as it is (`Balances`), or behind the token ahead, which was looked at and is taken
without another look (`BalancesBehind`), or it may close the bracket ahead (`Closes`).
In the last two cases it is the token looked at that makes the whole balanced.
-/

namespace GoGloss

/-! ## Balanced brackets -/

/-- The bracket that closes one that opens. -/
def Mark.closer? : Mark → Option Mark
  | .lparen => some .rparen
  | .lbrack => some .rbrack
  | .lbrace => some .rbrace
  | _ => none

/-- The marks that are brackets. -/
def Mark.brackets : List Mark :=
  [.lparen, .rparen, .lbrack, .rbrack, .lbrace, .rbrace]

/-- The bracket that a token is, if it is one. -/
def Token.bracket? : Token → Option Mark
  | .mark m => if m ∈ Mark.brackets then some m else none
  | _ => none

/-- Whether a token is no flawed stretch of source. -/
def Token.isLegal : Token → Bool
  | .illegal _ => false
  | _ => true

/-- The brackets among some lexemes, in order. -/
def brackets (ls : List Lexeme) : List Mark :=
  ls.filterMap (·.token.bracket?)

/-- Brackets that are properly nested and closed each by one of its own kind. -/
inductive Balanced : List Mark → Prop where
  | nil : Balanced []
  | enclose {opener closer : Mark} {inside behind : List Mark} :
      opener.closer? = some closer → Balanced inside → Balanced behind →
      Balanced (opener :: (inside ++ closer :: behind))

theorem Balanced.append {as bs : List Mark} (ha : Balanced as) (hb : Balanced bs) :
    Balanced (as ++ bs) := by
  induction ha with
  | nil => exact hb
  | enclose hpair hinside _ _ ih => simpa using Balanced.enclose hpair hinside ih

/-! ### The check with a stack -/

/-- Whether brackets close what is still open, innermost first, and nothing else is left open. -/
def unwinds : List Mark → List Mark → Bool
  | stack, [] => stack.isEmpty
  | stack, m :: ms =>
    match m.closer? with
    | some closer => unwinds (closer :: stack) ms
    | none => stack.head? == some m && unwinds stack.tail ms

theorem Balanced.unwinds_append {ms : List Mark} (h : Balanced ms) (stack rest : List Mark) :
    unwinds stack (ms ++ rest) = unwinds stack rest := by
  induction h generalizing stack rest with
  | nil => rfl
  | @enclose opener closer inside behind hpair _ _ ihinside ihbehind =>
      have hcloser : closer.closer? = none := by
        cases opener <;> simp [Mark.closer?] at hpair <;> subst hpair <;> rfl
      simp [unwinds, hpair, ihinside, hcloser, ihbehind]

/-- Brackets that close what is open are balanced up to each bracket that they close. -/
inductive Unwound : List Mark → List Mark → Prop where
  | done {ms : List Mark} : Balanced ms → Unwound [] ms
  | close {closer : Mark} {stack ms rest : List Mark} :
      Balanced ms → Unwound stack rest → Unwound (closer :: stack) (ms ++ closer :: rest)

theorem unwound_of_unwinds {stack ms : List Mark} (h : unwinds stack ms = true) :
    Unwound stack ms := by
  induction ms generalizing stack with
  | nil =>
      obtain rfl : stack = [] := List.isEmpty_iff.mp h
      exact .done .nil
  | cons m ms ih =>
      rw [unwinds] at h
      split at h
      · rename_i closer hpair
        -- the bracket that opens here is closed by the first one that is left over
        generalize hstack : closer :: stack = opened at h
        cases ih h with
        | done => cases hstack
        | close hinside hrest =>
            obtain ⟨rfl, rfl⟩ := List.cons.inj hstack
            cases hrest with
            | done hbehind => exact .done (.enclose hpair hinside hbehind)
            | close hbehind hmore =>
                simpa using Unwound.close (Balanced.enclose hpair hinside hbehind) hmore
      · rw [Bool.and_eq_true, beq_iff_eq, List.head?_eq_some_iff] at h
        obtain ⟨⟨stack, rfl⟩, h⟩ := h
        exact .close .nil (ih h)

theorem balanced_iff {ms : List Mark} : Balanced ms ↔ unwinds [] ms = true := by
  constructor
  · intro h
    have := h.unwinds_append [] []
    rwa [List.append_nil] at this
  · intro h
    cases unwound_of_unwinds h with
    | done h => exact h

instance (ms : List Mark) : Decidable (Balanced ms) :=
  decidable_of_iff _ balanced_iff.symm

/-! ## From one cursor to another -/

/-- Between two places in a row of lexemes all is legal and the brackets are balanced. -/
def Level (ls ls' : List Lexeme) : Prop :=
  ∃ taken, ls = taken ++ ls' ∧ (∀ l ∈ taken, l.token.isLegal) ∧ Balanced (brackets taken)

namespace Level

variable {ls ls' ls'' : List Lexeme}

theorem refl (ls : List Lexeme) : Level ls ls :=
  ⟨[], rfl, nofun, .nil⟩

theorem trans (h : Level ls ls') (h' : Level ls' ls'') : Level ls ls'' := by
  obtain ⟨taken, rfl, hlegal, hb⟩ := h
  obtain ⟨more, rfl, hlegal', hb'⟩ := h'
  refine ⟨taken ++ more, (List.append_assoc ..).symm,
    List.forall_mem_append.mpr ⟨hlegal, hlegal'⟩, ?_⟩
  rw [brackets, List.filterMap_append]
  exact hb.append hb'

end Level

namespace Grammar

variable {α β γ : Type} {c c' : Cursor}

/-- A token that is no bracket and no flaw. -/
class Neutral (t : Token) : Prop where
  bracket?_eq : t.bracket? = none
  legal : t.isLegal

/-- A neutral token changes nothing. -/
theorem level_advance (h : Neutral c.head.token) : Level c.rest c.advance.rest := by
  obtain ⟨hbracket, hlegal⟩ := h
  unfold Cursor.head at hbracket hlegal
  rw [Cursor.advance_rest]
  cases hrest : c.rest with
  | nil => exact .refl []
  | cons l ls =>
      rw [hrest] at hbracket hlegal
      exact ⟨[l], rfl, by simpa using hlegal, by simpa [brackets, hbracket] using Balanced.nil⟩

/-- A bracket, what is balanced behind it, and the bracket that closes it. -/
theorem Level.enclose {opener closer : Mark} (hpair : opener.closer? = some closer)
    (hopen : c.head.token = .mark opener) (h : Level c.advance.rest c'.rest)
    (hclose : c'.head.token = .mark closer) : Level c.rest c'.advance.rest := by
  have hcons : ∀ {c : Cursor} {m : Mark}, c.head.token = .mark m →
      ∃ l, c.rest = l :: c.advance.rest ∧ l.token = .mark m := by
    intro c m hm
    unfold Cursor.head at hm
    rw [Cursor.advance_rest]
    cases hrest : c.rest with
    | nil => simp [hrest] at hm
    | cons l ls => exact ⟨l, rfl, by simpa [hrest] using hm⟩
  obtain ⟨l, hl, hlm⟩ := hcons hopen
  obtain ⟨l', hl', hlm'⟩ := hcons hclose
  obtain ⟨taken, htaken, hlegal, hb⟩ := h
  refine ⟨l :: (taken ++ [l']), by rw [hl, htaken, hl']; simp only [List.cons_append,
    List.append_assoc, List.nil_append], ?_, ?_⟩
  · simpa [or_imp, forall_and, hlm, hlm', Token.isLegal] using hlegal
  have hbrackets : brackets (l :: (taken ++ [l'])) =
      opener :: (brackets taken ++ closer :: []) := by
    have hopener : Token.bracket? (.mark opener) = some opener := by
      cases opener <;> simp [Mark.closer?] at hpair <;> rfl
    have hcloser : Token.bracket? (.mark closer) = some closer := by
      cases opener <;> simp [Mark.closer?] at hpair <;> subst hpair <;> rfl
    simp [brackets, hlm, hlm', hopener, hcloser]
  rw [hbrackets]
  exact .enclose hpair hb .nil

/-! ## Balanced readers -/

/-- Whatever a reader takes is balanced. -/
class Balances (p : Parser α) : Prop where
  yields : ∀ c, Yields p c fun _ c' => Level c.rest c'.rest

/-- A reader takes nothing. -/
class Stays (p : Parser α) : Prop where
  yields : ∀ c, Yields p c fun _ c' => c'.rest = c.rest

/-- What a reader takes behind the token ahead is balanced. -/
class BalancesBehind (p : Parser α) : Prop where
  yields : ∀ c, Yields p c fun _ c' => Level c.rest.tail c'.rest

/-- A reader takes a closing bracket, and what it takes before and after it is balanced. -/
class Shuts (closer : outParam Mark) (p : Parser α) : Prop where
  yields : ∀ c, Yields p c fun _ c' => ∃ inside : Cursor, Level c.rest inside.rest ∧
    inside.head.token = .mark closer ∧ Level inside.advance.rest c'.rest

/-- A reader takes the token ahead, and then it takes a closing bracket as in `Shuts`. -/
class Closes (closer : outParam Mark) (p : Parser α) : Prop where
  yields : ∀ c, Yields p c fun _ c' => ∃ inside : Cursor, Level c.rest.tail inside.rest ∧
    inside.head.token = .mark closer ∧ Level inside.advance.rest c'.rest

/-- A bracket and the one that closes it. -/
class Pair (opener : Mark) (closer : outParam Mark) : Prop where
  closer?_eq : opener.closer? = some closer

instance : Pair .lparen .rparen := ⟨rfl⟩
instance : Pair .lbrack .rbrack := ⟨rfl⟩
instance : Pair .lbrace .rbrace := ⟨rfl⟩
instance (k : Keyword) : Neutral (.keyword k) := ⟨rfl, rfl⟩
instance (text : String) : Neutral (.name text) := ⟨rfl, rfl⟩
instance (kind : LiteralKind) (text : String) : Neutral (.literal kind text) := ⟨rfl, rfl⟩
instance : Neutral (.mark .comma) := ⟨rfl, rfl⟩
instance : Neutral (.mark .semicolon) := ⟨rfl, rfl⟩
instance : Neutral (.mark .colon) := ⟨rfl, rfl⟩
instance : Neutral (.mark .dot) := ⟨rfl, rfl⟩
instance : Neutral (.mark .ellipsis) := ⟨rfl, rfl⟩
instance : Neutral (.mark .assign) := ⟨rfl, rfl⟩
instance : Neutral (.mark .tilde) := ⟨rfl, rfl⟩
instance : Neutral (.mark .arrow) := ⟨rfl, rfl⟩
instance : Neutral (.mark .star) := ⟨rfl, rfl⟩
instance : Neutral (.mark .pipe) := ⟨rfl, rfl⟩

/-- No bracket and no flaw is an operator. -/
theorem neutral_of_ofToken {ω : Type} {ofToken? : Token → Option ω}
    (hnone : ∀ m ∈ Mark.brackets, ofToken? (.mark m) = none)
    (hillegal : ∀ flaw, ofToken? (.illegal flaw) = none) {t : Token} {op : ω}
    (h : ofToken? t = some op) : Neutral t where
  legal := by
    cases t <;> simp_all [Token.isLegal]
  bracket?_eq := by
    unfold Token.bracket?
    split
    · rename_i m
      split
      · rename_i hm
        rw [hnone m hm] at h
        cases h
      · rfl
    · rfl

section Rules

variable {p : Parser α} {q : Parser β} {f : β → Parser α} {opener closer : Mark} {t : Token}

instance [h : Stays p] : Balances p where
  yields c := (h.yields c).mono fun _ _ hrest => hrest ▸ .refl _

/-! ### One reader after another -/

instance [hq : Balances q] [hf : ∀ b, Balances (f b)] : Balances (q >>= f) where
  yields c := yields_bind.mpr <| (hq.yields c).mono fun b c' hlevel =>
    ((hf b).yields c').mono fun _ _ hlevel' => hlevel.trans hlevel'

instance [hq : BalancesBehind q] [hf : ∀ b, Balances (f b)] : BalancesBehind (q >>= f) where
  yields c := yields_bind.mpr <| (hq.yields c).mono fun b c' hlevel =>
    ((hf b).yields c').mono fun _ _ hlevel' => hlevel.trans hlevel'

instance [hq : Stays q] [hf : ∀ b, BalancesBehind (f b)] : BalancesBehind (q >>= f) where
  yields c := yields_bind.mpr <| (hq.yields c).mono fun b c' hrest =>
    ((hf b).yields c').mono fun _ _ hlevel => hrest ▸ hlevel

instance [hq : Shuts closer q] [hf : ∀ b, Balances (f b)] : Shuts closer (q >>= f) where
  yields c := yields_bind.mpr <| (hq.yields c).mono fun b c' ⟨inside, hbefore, hat, hafter⟩ =>
    ((hf b).yields c').mono fun _ _ hlevel => ⟨inside, hbefore, hat, hafter.trans hlevel⟩

instance [hq : Balances q] [hf : ∀ b, Shuts closer (f b)] : Shuts closer (q >>= f) where
  yields c := yields_bind.mpr <| (hq.yields c).mono fun b c' hlevel =>
    ((hf b).yields c').mono fun _ _ ⟨inside, hbefore, hat⟩ => ⟨inside, hlevel.trans hbefore, hat⟩

instance [hq : BalancesBehind q] [hf : ∀ b, Shuts closer (f b)] : Closes closer (q >>= f) where
  yields c := yields_bind.mpr <| (hq.yields c).mono fun b c' hlevel =>
    ((hf b).yields c').mono fun _ _ ⟨inside, hbefore, hat⟩ => ⟨inside, hlevel.trans hbefore, hat⟩

instance [hq : Stays q] [hf : ∀ b, Closes closer (f b)] : Closes closer (q >>= f) where
  yields c := yields_bind.mpr <| (hq.yields c).mono fun b c' hrest =>
    ((hf b).yields c').mono fun _ _ hclosed => hrest ▸ hclosed

/-- A bracket that is taken first, and closed after it. -/
instance [hpair : Pair opener closer] {f : Span → Parser α} [hf : ∀ a, Shuts closer (f a)] :
    Balances (expect (.mark opener) >>= f) where
  yields c := by
    rw [yields_bind, yields_expect]
    refine fun hopen => ((hf _).yields _).mono fun _ c' ⟨inside, hbefore, hat, hafter⟩ => ?_
    exact (Level.enclose hpair.closer?_eq hopen hbefore hat).trans hafter

/-! ### Steps -/

instance [h : Stays q] {g : β → α} : Stays (g <$> q) where
  yields c := yields_map.mpr (h.yields c)

instance [h : Balances q] {g : β → α} : Balances (g <$> q) where
  yields c := yields_map.mpr (h.yields c)

instance [h : BalancesBehind q] {g : β → α} : BalancesBehind (g <$> q) where
  yields c := yields_map.mpr (h.yields c)

instance [h : Closes closer q] {g : β → α} : Closes closer (g <$> q) where
  yields c := yields_map.mpr (h.yields c)

instance [Balances p] {p' : Parser α} [Balances p'] {b : Prop} [Decidable b] :
    Balances (if b then p else p') := by
  split <;> infer_instance

instance [Shuts closer p] {p' : Parser α} [Shuts closer p'] {b : Prop} [Decidable b] :
    Shuts closer (if b then p else p') := by
  split <;> infer_instance

instance {a : α} : Stays (pure a : Parser α) := ⟨fun c => by simp⟩
instance {span : Span} {fault : Fault} : Stays (failAt span fault : Parser α) := ⟨fun c => by simp⟩
instance {fault : Fault} : Stays (failHere fault : Parser α) := ⟨fun c => by simp⟩
instance {wanted : Wanted} : Stays (failExpected wanted : Parser α) := ⟨fun c => by simp⟩
instance : Stays (get : Parser Cursor) := ⟨fun c => by simp⟩
instance : Stays (peek : Parser Token) := ⟨fun c => by simp⟩
instance : Stays (peekSecond : Parser Token) := ⟨fun c => by simp⟩
instance : Stays (here : Parser Nat) := ⟨fun c => by simp⟩
instance {start : Nat} : Stays (spanFrom start : Parser Span) := ⟨fun c => by simp⟩
instance : Stays (isAt t : Parser Bool) := ⟨fun c => by simp⟩
instance : Stays (enter : Parser Unit) := ⟨fun c => by simp⟩
instance {x : Expr} : Stays (makeExpr x) := ⟨fun c => by simp⟩
instance {s : Stmt} : Stays (makeStmt s) := ⟨fun c => by simp⟩
instance {d : Decl} : Stays (makeDecl d) := ⟨fun c => by simp⟩
instance {x : Field} : Stays (makeField x) := ⟨fun c => by simp⟩
instance {fs : List Field} : Stays (fs.mapM makeField) :=
  ⟨fun _ => yields_mapM_makeField fun _ _ => rfl⟩
instance {xs : List Expr} : Stays (xs.forM fun x => discard (makeExpr x)) :=
  ⟨fun _ => yields_forM_makeExpr fun _ _ => rfl⟩

instance : BalancesBehind (take : Parser Span) := ⟨fun c => by simpa using .refl _⟩

instance [h : Neutral t] : Balances (eat t : Parser (Option Span)) where
  yields _ := yields_eat.mpr ⟨fun ht => level_advance (ht ▸ h), fun _ => .refl _⟩

instance [h : Neutral t] : Balances (eats t : Parser Bool) where
  yields _ := yields_eats.mpr ⟨fun ht => level_advance (ht ▸ h), fun _ => .refl _⟩

instance [h : Neutral t] : Balances (expect t : Parser Span) where
  yields _ := yields_expect.mpr fun ht => level_advance (ht ▸ h)

instance : Shuts closer (expect (.mark closer) : Parser Span) where
  yields c := yields_expect.mpr fun ht => ⟨c, .refl _, ht, .refl _⟩

instance : Balances (expectEnd : Parser Unit) where
  yields c := yields_expectEnd.mpr
    ⟨fun ht => level_advance (by rw [ht]; infer_instance), fun _ => .refl _⟩

instance : Balances name where
  yields c := yields_name.mpr fun text ht => level_advance (by rw [ht]; infer_instance)

instance : Balances (textLiteral? : Parser (Option Literal)) where
  yields c := yields_textLiteral?.mpr
    ⟨fun kind text ht _ => level_advance (by rw [ht]; infer_instance), fun _ => .refl _⟩

/-! ### Readers inside readers -/

instance [h : Balances q] : Balances (discard q) where
  yields c := yields_discard.mpr (h.yields c)

instance [h : BalancesBehind q] : BalancesBehind (discard q) where
  yields c := yields_discard.mpr (h.yields c)

instance [h : Shuts closer q] : Shuts closer (discard q) where
  yields c := yields_discard.mpr (h.yields c)

instance [hpair : Pair opener closer] {f : Unit → Parser α} [hf : ∀ a, Shuts closer (f a)] :
    Balances (discard (expect (.mark opener)) >>= f) where
  yields c := by
    rw [yields_bind, yields_discard, yields_expect]
    refine fun hopen => ((hf _).yields _).mono fun _ c' ⟨inside, hbefore, hat, hafter⟩ => ?_
    exact (Level.enclose hpair.closer?_eq hopen hbefore hat).trans hafter

instance [h : Balances p] : Balances (nested p) where
  yields c := by
    rw [yields_nested]
    exact fun _ => h.yields _

instance [h : Balances p] : Balances (bracketed p) where
  yields c := yields_bracketed.mpr (h.yields (c.withExprLevel _))

instance [h : Balances p] : Balances (inHeader p) where
  yields c := yields_inHeader.mpr (h.yields (c.withExprLevel _))

instance Balances.collect {round : Parser (Round α)} [h : Balances round] :
    Balances (collect round) where
  yields c := yields_collect (I := fun _ c' => Level c.rest c'.rest) (.refl _)
    fun _ c₁ hlevel => (h.yields c₁).mono fun _ _ hround =>
      ⟨fun _ => hlevel.trans hround, fun _ => hlevel.trans hround⟩

instance {round : α → Parser (Option α)} [h : ∀ a, Balances (round a)] {a : α} :
    Balances (extend round a) where
  yields c := yields_extend (I := fun _ c' => Level c.rest c'.rest) (.refl _)
    fun a c₁ hlevel => ((h a).yields c₁).mono fun _ _ hround => hlevel.trans hround

/-! ### Looking first -/

/-- What a reader takes is balanced if the token ahead is the given one. -/
class BalancesAt (t : Token) (p : Parser α) : Prop where
  yields : ∀ c, c.head.token = t → Yields p c fun _ c' => Level c.rest c'.rest

instance Balances.at [h : Balances p] : BalancesAt t p :=
  ⟨fun c _ => h.yields c⟩

/-- Behind a token that is no bracket. -/
instance BalancesBehind.at [ht : Neutral t] [h : BalancesBehind p] : BalancesAt t p where
  yields c hc := (h.yields c).mono fun _ _ hlevel =>
    (level_advance (hc ▸ ht)).trans hlevel

/-- From a bracket on that is closed. -/
instance Closes.at [hpair : Pair opener closer] [h : Closes closer p] :
    BalancesAt (.mark opener) p where
  yields c hc := (h.yields c).mono fun _ _ ⟨_, hbefore, hat, hafter⟩ =>
    (Level.enclose hpair.closer?_eq hc hbefore hat).trans hafter

instance [BalancesAt t p] {p' : Parser α} [BalancesAt t p'] {b : Prop} [Decidable b] :
    BalancesAt t (if b then p else p') := by
  split <;> infer_instance

theorem balances_peek {f : Token → Parser α} (h : ∀ t, BalancesAt t (f t)) :
    Balances (peek >>= f) where
  yields c := by
    rw [yields_bind, yields_peek]
    exact (h _).yields c rfl

theorem balances_isAt {f : Bool → Parser α} (hthere : BalancesAt t (f true))
    (hnot : Balances (f false)) : Balances (isAt t >>= f) where
  yields c := by
    rw [yields_bind, yields_isAt]
    by_cases hc : c.head.token = t
    · rw [decide_eq_true hc]
      exact hthere.yields c hc
    · rw [decide_eq_false hc]
      exact hnot.yields c

theorem Balances.step [Balances q] (hf : ∀ b, Balances (f b)) : Balances (q >>= f) :=
  inferInstance

/-- Two readers for the same thing, and what is done with it. -/
theorem Balances.join {q' : Parser β} {b : Prop} [Decidable b] [Balances q] [Balances q']
    (hf : ∀ x, Balances (f x)) : Balances (if b then q >>= f else q' >>= f) :=
  inferInstance

theorem BalancesBehind.skip [Stays q] (hf : ∀ b, BalancesBehind (f b)) :
    BalancesBehind (q >>= f) :=
  inferInstance

theorem BalancesBehind.step [BalancesBehind q] (hf : ∀ b, Balances (f b)) :
    BalancesBehind (q >>= f) :=
  inferInstance

theorem Closes.step [BalancesBehind q] (hf : ∀ b, Shuts closer (f b)) :
    Closes closer (q >>= f) :=
  inferInstance

theorem Shuts.step [Balances q] (hf : ∀ b, Shuts closer (f b)) : Shuts closer (q >>= f) :=
  inferInstance

theorem Shuts.after {f : Span → Parser α} (hf : ∀ b, Balances (f b)) :
    Shuts closer (expect (.mark closer) >>= f) :=
  inferInstance

theorem Shuts.afterDiscard {f : Unit → Parser α} (hf : ∀ b, Balances (f b)) :
    Shuts closer (discard (expect (.mark closer)) >>= f) :=
  inferInstance

/-- A bracket that may be there, and is closed if it is. -/
theorem balances_eats [hpair : Pair opener closer] {p' : Parser α}
    (hthere : Shuts closer p) (hnot : Balances p') :
    Balances (eats (.mark opener) >>= fun b => if b then p else p') where
  yields c := by
    simp only [yields_bind, yields_eats, if_true, Bool.false_eq_true, if_false]
    refine ⟨fun hopen => ?_, fun _ => hnot.yields c⟩
    refine (hthere.yields _).mono fun _ _ ⟨inside, hbefore, hat, hafter⟩ => ?_
    exact (Level.enclose hpair.closer?_eq hopen hbefore hat).trans hafter

theorem balances_eat [hpair : Pair opener closer] {f : Option Span → Parser α}
    (hthere : ∀ span, Shuts closer (f (some span))) (hnot : Balances (f none)) :
    Balances (eat (.mark opener) >>= f) where
  yields c := by
    rw [yields_bind, yields_eat]
    refine ⟨fun hopen => ?_, fun _ => hnot.yields c⟩
    refine ((hthere _).yields _).mono fun _ _ ⟨inside, hbefore, hat, hafter⟩ => ?_
    exact (Level.enclose hpair.closer?_eq hopen hbefore hat).trans hafter

end Rules

/-! ## Lists -/

section Lists

variable {item : Parser α} [Balances item] {close : Mark}

instance : Balances (commaRound item) := by
  unfold commaRound
  infer_instance

instance : Balances (commaList item) := by
  unfold commaList
  infer_instance

instance : Balances (commaListUntil close item) := by
  refine Balances.collect (h := balances_peek fun t => ?_)
  split <;> infer_instance

instance : Balances (moreUntil close item) := by
  unfold moreUntil
  infer_instance

instance : Balances (endedListUntil close item) := by
  refine Balances.collect (h := balances_peek fun t => ?_)
  split <;> infer_instance

instance : Balances nameList := by
  unfold nameList
  infer_instance

end Lists

end Grammar

end GoGloss
