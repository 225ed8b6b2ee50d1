import GoGloss.Proofs.Bare
import GoGloss.Proofs.Yields

/-!
# Readers that agree

What a reader does depends on the tokens ahead and on little else. The places of
the tokens go into the spans of the tree and nowhere else, and the depth matters
only when the limit is met. So two runs over the same tokens go hand in hand,
wherever in their sources these tokens stand and however deep the readers are
nested.

`Agree k view p q` says it for two readers, the first of which starts `k` levels
deeper than the second: both succeed and `view` shows the same of both results,
or both stop with the same complaint, or the first one alone meets the limit.
There is a rule for every step a production takes, as there is for `Yields`.
-/

namespace GoGloss.Grammar

variable {α β γ δ : Type} {k : Nat}

/-- What a reader sees of a lexeme: its token, and whether it stands for the end of a line. -/
def sight (l : Lexeme) : Token × Bool :=
  (l.token, l.isLineEnd)

namespace Cursor

/-- The cursors see the same ahead, and the first is `k` levels deeper. -/
structure Alike (k : Nat) (c d : Cursor) : Prop where
  sights : c.rest.map sight = d.rest.map sight
  exprLevel : c.exprLevel = d.exprLevel
  depth : c.depth = d.depth + k

namespace Alike

variable {c d : Cursor}

theorem sight_head (h : c.Alike k d) : sight c.head = sight d.head := by
  have hsights := h.sights
  unfold Cursor.head
  cases hc : c.rest <;> cases hd : d.rest
  · simp [sight, Lexeme.isLineEnd]
  all_goals simp_all

theorem token_head (h : c.Alike k d) : c.head.token = d.head.token :=
  congrArg Prod.fst h.sight_head

theorem isLineEnd_head (h : c.Alike k d) : c.head.isLineEnd = d.head.isLineEnd :=
  congrArg Prod.snd h.sight_head

theorem foundText_head (h : c.Alike k d) : foundText c.head = foundText d.head := by
  rw [foundText, foundText, h.token_head, h.isLineEnd_head]

theorem second (h : c.Alike k d) : c.second = d.second := by
  have hsights := h.sights
  unfold Cursor.second
  match hc : c.rest, hd : d.rest with
  | [], [] | [_], [_] | _ :: _ :: _, _ :: _ :: _ => simp_all [sight]
  | [], _ :: _ | _ :: _, [] | [_], _ :: _ :: _ | _ :: _ :: _, [_] => simp_all

theorem advance (h : c.Alike k d) : c.advance.Alike k d.advance where
  sights := by simp [List.map_tail, h.sights]
  exprLevel := h.exprLevel
  depth := h.depth

theorem withBench (h : c.Alike k d) (w w' : Workbench) :
    (c.withBench w).Alike k (d.withBench w') :=
  ⟨h.sights, h.exprLevel, h.depth⟩

theorem withDepth {m n : Nat} (h : c.Alike k d) (hdepth : m = n + k) :
    (c.withDepth m).Alike k (d.withDepth n) :=
  ⟨h.sights, h.exprLevel, hdepth⟩

end Alike

end Cursor

/-- The outcomes of two readers, the first of which ran `k` levels deeper. -/
inductive SameOutcome (k : Nat) (view : α → γ) :
    EStateM.Result SyntaxError Cursor α → EStateM.Result SyntaxError Cursor α → Prop where
  | ok {a b : α} {c d : Cursor} (hview : view a = view b) (hcursor : c.Alike k d) :
    SameOutcome k view (.ok a c) (.ok b d)
  | error {e e' : SyntaxError} {c d : Cursor} (hmessage : e.fault.message = e'.fault.message) :
    SameOutcome k view (.error e c) (.error e' d)
  /-- The first reader alone meets the limit. -/
  | deep {e : SyntaxError} {c : Cursor} {r : EStateM.Result SyntaxError Cursor α} (hk : 0 < k)
    (hfault : e.fault = .tooDeep) : SameOutcome k view (.error e c) r

/-- The readers have the same outcome wherever the cursors see the same. -/
def Agree (k : Nat) (view : α → γ) (p q : Parser α) : Prop :=
  ∀ c d, c.Alike k d → SameOutcome k view (p c) (q d)

/-! ## Steps -/

section Steps

variable {view : α → γ} {view' : β → δ} {p q : Parser α}

theorem agree_pure {a b : α} (h : view a = view b) : Agree k view (pure a) (pure b) :=
  fun _ _ hcd => .ok h hcd

theorem Agree.bind {f g : α → Parser β} (h : Agree k view p q)
    (hf : ∀ a b, view a = view b → Agree k view' (f a) (g b)) :
    Agree k view' (p >>= f) (q >>= g) := by
  intro c d hcd
  have hp := h c d hcd
  change SameOutcome k view' (EStateM.bind p f c) (EStateM.bind q g d)
  unfold EStateM.bind
  generalize p c = r at hp
  generalize q d = s at hp
  cases hp with
  | ok hview hcursor => exact hf _ _ hview _ _ hcursor
  | error hmessage => exact .error hmessage
  | deep hk hfault => exact .deep hk hfault

/-- What is seen whole is the same for both. -/
theorem Agree.same {f g : α → Parser β} (h : Agree k id p q)
    (hf : ∀ a, Agree k view' (f a) (g a)) : Agree k view' (p >>= f) (q >>= g) :=
  h.bind fun a b (hab : a = b) => hab ▸ hf a

theorem Agree.map {f g : α → β} (h : Agree k view p q)
    (hf : ∀ a b, view a = view b → view' (f a) = view' (g b)) :
    Agree k view' (f <$> p) (g <$> q) := by
  rw [map_eq_pure_bind, map_eq_pure_bind]
  exact h.bind fun a b hab => agree_pure (hf a b hab)

theorem Agree.some (h : Agree k view p q) :
    Agree k (Option.map view) (Option.some <$> p) (Option.some <$> q) :=
  h.map fun _ _ hab => congrArg Option.some hab

theorem Agree.discard (h : Agree k view p q) :
    Agree k id (Functor.discard p) (Functor.discard q) :=
  h.map fun _ _ _ => rfl

theorem Agree.ite {b : Prop} [Decidable b] {p' q' : Parser α} (h : Agree k view p q)
    (h' : Agree k view p' q') : Agree k view (if b then p else p') (if b then q else q') := by
  split
  · exact h
  · exact h'

/-- Two ways to get at a value that the same steps go on with. -/
theorem Agree.join {b : Prop} [Decidable b] {p' q' : Parser α} {f g : α → Parser β}
    (h : Agree k view p q) (h' : Agree k view p' q')
    (hf : ∀ a b, view a = view b → Agree k view' (f a) (g b)) :
    Agree k view' (if b then p >>= f else p' >>= f) (if b then q >>= g else q' >>= g) :=
  .ite (h.bind hf) (h'.bind hf)

theorem agree_get : Agree k (fun c => (c.exprLevel, c.head.isLineEnd)) get get :=
  fun _ _ hcd => .ok (Prod.ext hcd.exprLevel hcd.isLineEnd_head) hcd

theorem agree_failAt {span span' : Span} {fault fault' : Fault}
    (h : fault.message = fault'.message) :
    Agree k view (failAt span fault) (failAt span' fault') :=
  fun _ _ _ => .error h

theorem agree_failHere {fault : Fault} : Agree k view (failHere fault) (failHere fault) :=
  fun _ _ _ => .error rfl

theorem agree_failExpected {wanted : Wanted} :
    Agree k view (failExpected wanted) (failExpected wanted) := by
  intro c d hcd
  refine .error ?_
  change "expected " ++ wanted.text ++ ", found " ++ foundText c.head =
    "expected " ++ wanted.text ++ ", found " ++ foundText d.head
  rw [hcd.foundText_head]

end Steps

/-! ## Looking ahead and taking tokens

Of a place nothing is seen, and of one that may be absent only whether it is there. -/

/-- Nothing is seen of a value. -/
def unseen (_ : α) : Unit := ()

theorem agree_peek : Agree k id peek peek :=
  fun _ _ hcd => .ok hcd.token_head hcd

theorem agree_peekSecond : Agree k id peekSecond peekSecond :=
  fun _ _ hcd => .ok hcd.second hcd

theorem agree_here : Agree k unseen here here :=
  fun _ _ hcd => .ok rfl hcd

theorem agree_spanFrom (start start' : Nat) : Agree k unseen (spanFrom start) (spanFrom start') :=
  fun _ _ hcd => .ok rfl hcd

theorem agree_take : Agree k unseen take take :=
  fun _ _ hcd => .ok rfl hcd.advance

theorem agree_isAt (t : Token) : Agree k id (isAt t) (isAt t) :=
  agree_peek.bind fun _ _ h => agree_pure (congrArg (fun u : Token => decide (u = t)) h)

theorem agree_eat (t : Token) : Agree k bareSpan (eat t) (eat t) := by
  refine (agree_isAt t).same fun _ => .ite ?_ (agree_pure rfl)
  exact agree_take.bind fun _ _ _ => agree_pure rfl

/-- Whether a token was eaten is the same for both. -/
theorem agree_eat_bind {view : α → γ} {t : Token} {f g : Option Span → Parser α}
    (hsome : ∀ span span', Agree k view (f (some span)) (g (some span')))
    (hnone : Agree k view (f none) (g none)) : Agree k view (eat t >>= f) (eat t >>= g) := by
  refine (agree_eat t).bind fun a b hab => ?_
  cases a <;> cases b
  · exact hnone
  · simp [bareSpan] at hab
  · simp [bareSpan] at hab
  · exact hsome _ _

theorem agree_eats (t : Token) : Agree k id (eats t) (eats t) :=
  agree_eat_bind (fun _ _ => agree_pure rfl) (agree_pure rfl)

theorem agree_expect (t : Token) : Agree k unseen (expect t) (expect t) :=
  agree_eat_bind (fun _ _ => agree_pure rfl) agree_failExpected

theorem agree_expectEnd : Agree k id expectEnd expectEnd := by
  refine agree_peek.same fun t => ?_
  split
  · exact agree_take.discard
  · exact agree_pure rfl
  · exact agree_pure rfl
  · exact agree_pure rfl
  · exact agree_failExpected

/-! ## Making nodes -/

theorem agree_makeExpr {x y : Expr} (h : x.bare = y.bare) :
    Agree k Expr.bare (makeExpr x) (makeExpr y) :=
  fun _ _ hcd => .ok h (hcd.withBench _ _)

theorem agree_makeStmt {s t : Stmt} (h : s.bare = t.bare) :
    Agree k Stmt.bare (makeStmt s) (makeStmt t) :=
  fun _ _ hcd => .ok h (hcd.withBench _ _)

theorem agree_makeDecl {d e : Decl} (h : d.bare = e.bare) :
    Agree k Decl.bare (makeDecl d) (makeDecl e) :=
  fun _ _ hcd => .ok h (hcd.withBench _ _)

theorem agree_makeField {f g : Field} (h : f.bare = g.bare) :
    Agree k Field.bare (makeField f) (makeField g) :=
  fun _ _ hcd => .ok h (hcd.withBench _ _)

section Unseen

variable {view : α → γ} {start start' : Nat} {t : Token}

/-! Steps of which nothing is seen, and what comes after them. -/

protected theorem Agree.here {f g : Nat → Parser α} (h : ∀ a b, Agree k view (f a) (g b)) :
    Agree k view (here >>= f) (here >>= g) :=
  agree_here.bind fun a b _ => h a b

protected theorem Agree.span {f g : Span → Parser α} (h : ∀ a b, Agree k view (f a) (g b)) :
    Agree k view (spanFrom start >>= f) (spanFrom start' >>= g) :=
  (agree_spanFrom _ _).bind fun a b _ => h a b

protected theorem Agree.take {f g : Span → Parser α} (h : ∀ a b, Agree k view (f a) (g b)) :
    Agree k view (take >>= f) (take >>= g) :=
  agree_take.bind fun a b _ => h a b

protected theorem Agree.drop {f g : Unit → Parser α} (h : Agree k view (f ()) (g ())) :
    Agree k view (Functor.discard take >>= f) (Functor.discard take >>= g) :=
  agree_take.discard.same fun _ => h

protected theorem Agree.expect {f g : Span → Parser α} (h : ∀ a b, Agree k view (f a) (g b)) :
    Agree k view (expect t >>= f) (expect t >>= g) :=
  (agree_expect t).bind fun a b _ => h a b

protected theorem Agree.skip {f g : Unit → Parser α} (h : Agree k view (f ()) (g ())) :
    Agree k view (Functor.discard (expect t) >>= f) (Functor.discard (expect t) >>= g) :=
  (agree_expect t).discard.same fun _ => h

protected theorem Agree.makeExpr {x y : Span → Expr} (h : ∀ s s', (x s).bare = (y s').bare) :
    Agree k Expr.bare (do makeExpr (x (← spanFrom start)))
      (do makeExpr (y (← spanFrom start'))) :=
  .span fun s s' => agree_makeExpr (h s s')

protected theorem Agree.makeStmt {x y : Span → Stmt} (h : ∀ s s', (x s).bare = (y s').bare) :
    Agree k Stmt.bare (do makeStmt (x (← spanFrom start)))
      (do makeStmt (y (← spanFrom start'))) :=
  .span fun s s' => agree_makeStmt (h s s')

end Unseen

theorem agree_modify_bench (f g : Cursor → Workbench) :
    Agree k unseen (modify fun c => { c with bench := f c })
      (modify fun c => { c with bench := g c }) :=
  fun _ _ hcd => .ok rfl (hcd.withBench _ _)

theorem agree_name : Agree k Name.bare name name := by
  refine agree_peek.same fun t => ?_
  split
  · refine agree_take.bind fun _ _ _ => ?_
    exact (agree_modify_bench _ _).bind fun _ _ _ => agree_pure rfl
  · exact agree_failExpected

theorem agree_textLiteral? : Agree k (Option.map Literal.bare) textLiteral? textLiteral? := by
  refine agree_peek.same fun t => ?_
  split
  · exact .ite (agree_take.bind fun _ _ _ => agree_pure rfl) (agree_pure rfl)
  · exact agree_pure rfl

theorem agree_mapM_makeField {fs gs : List Field} (h : fs.map Field.bare = gs.map Field.bare) :
    Agree k (List.map Field.bare) (fs.mapM makeField) (gs.mapM makeField) := by
  induction fs generalizing gs with
  | nil =>
      obtain rfl : gs = [] := by simpa using h.symm
      exact agree_pure rfl
  | cons f fs ih =>
      obtain ⟨g, gs, rfl, hfg, htail⟩ := List.map_eq_cons_iff.mp h.symm
      simp only [List.mapM_cons]
      refine (agree_makeField hfg.symm).bind fun f' g' hf => ?_
      exact (ih htail.symm).bind fun fs' gs' hfs => agree_pure (by simp [hf, hfs])

/-- Nodes that only go on the bench are not seen at all. -/
theorem agree_forM_makeExpr (xs ys : List Expr) :
    Agree k unseen (xs.forM fun x => discard (makeExpr x))
      (ys.forM fun y => discard (makeExpr y)) := by
  have hrun : ∀ (zs : List Expr) (c : Cursor), ∃ w,
      (zs.forM fun z => discard (makeExpr z)) c = .ok ⟨⟩ (c.withBench w) := by
    intro zs
    induction zs with
    | nil => exact fun c => ⟨c.bench, rfl⟩
    | cons z zs ih => exact fun c => ih (c.withBench (c.bench.addExpr z))
  intro c d hcd
  obtain ⟨w, hw⟩ := hrun xs c
  obtain ⟨w', hw'⟩ := hrun ys d
  rw [hw, hw']
  exact .ok rfl (hcd.withBench w w')

/-! ## Nesting -/

section Nesting

variable {view : α → γ} {p q : Parser α}

theorem enter_eq (c : Cursor) : enter c = if maxDepth ≤ c.depth
    then .error ⟨.tooDeep, c.head.span⟩ c else .ok () (c.withDepth (c.depth + 1)) := by
  change (if maxDepth ≤ c.depth then failHere .tooDeep else set _ : Parser Unit) c = _
  split <;> rfl

theorem agree_enter : Agree k unseen enter enter := by
  intro c d hcd
  have hdepth := hcd.depth
  rw [enter_eq, enter_eq]
  by_cases hc : maxDepth ≤ c.depth
  · by_cases hd : maxDepth ≤ d.depth
    · rw [if_pos hc, if_pos hd]
      exact .error rfl
    · rw [if_pos hc]
      exact .deep (by omega) rfl
  · rw [if_neg hc, if_neg (by omega)]
    exact .ok rfl (hcd.withDepth (by omega))

/-- What is entered is left again, so the levels inside do not count afterwards. -/
theorem Agree.nested (h : Agree k view p q) : Agree k view (nested p) (nested q) := by
  intro c d hcd
  have hp := (agree_enter.bind fun _ _ _ => h) c d hcd
  change SameOutcome k view (leavingDepth c.depth (enter >>= fun _ => p) c)
    (leavingDepth d.depth (enter >>= fun _ => q) d)
  unfold leavingDepth
  generalize (enter >>= fun _ => p) c = r at hp
  generalize (enter >>= fun _ => q) d = s at hp
  cases hp with
  | ok hview hcursor => exact .ok hview (hcursor.withDepth hcd.depth)
  | error hmessage => exact .error hmessage
  | deep hk hfault => exact .deep hk hfault

theorem agree_modify_exprLevel (f : Int → Int) :
    Agree k unseen (modify fun c => { c with exprLevel := f c.exprLevel })
      (modify fun c => { c with exprLevel := f c.exprLevel }) :=
  fun _ _ hcd => .ok rfl ⟨hcd.sights, congrArg f hcd.exprLevel, hcd.depth⟩

theorem Agree.bracketed (h : Agree k view p q) : Agree k view (bracketed p) (bracketed q) := by
  refine (agree_modify_exprLevel (· + 1)).bind fun _ _ _ => h.bind fun a b hab => ?_
  exact (agree_modify_exprLevel (· - 1)).bind fun _ _ _ => agree_pure hab

theorem Agree.inHeader (h : Agree k view p q) : Agree k view (inHeader p) (inHeader q) := by
  refine agree_get.bind fun c d hcd => ?_
  refine ((agree_modify_exprLevel fun _ => -1).bind fun _ _ _ => h).bind fun a b hab => ?_
  rw [show c.exprLevel = d.exprLevel from congrArg Prod.fst hcd]
  exact (agree_modify_exprLevel fun _ => d.exprLevel).bind fun _ _ _ => agree_pure hab

end Nesting

/-! ## Repetition -/

/-- A round of reading, its item seen through a view. -/
def Round.map (f : α → β) : Round α → Round β
  | .done => .done
  | .last item => .last (f item)
  | .more item => .more (f item)

section Repetition

variable {view : α → γ}

theorem Agree.collect {round round' : Parser (Round α)}
    (h : Agree k (Round.map view) round round') :
    Agree k (List.map view) (collect round) (collect round') := by
  -- Both count their rounds off against as many lexemes.
  have hfor : ∀ (clock clock' : List Lexeme) (items items' : List α),
      clock.length = clock'.length → items.map view = items'.map view →
      Agree k (List.map view) (collectFor round clock items)
        (collectFor round' clock' items') := by
    intro clock
    induction clock with
    | nil =>
        intro clock' items items' hclock hitems
        obtain rfl : clock' = [] := by simpa using hclock.symm
        rw [collectFor, collectFor]
        refine h.bind fun r r' hr => ?_
        cases r <;> cases r' <;> simp only [Round.map, reduceCtorEq, Round.last.injEq] at hr
        · exact agree_pure (by simp [hitems])
        · exact agree_pure (by simp [hr, hitems])
        · exact agree_failHere
    | cons l clock ih =>
        intro clock' items items' hclock hitems
        obtain ⟨l', clock', rfl⟩ := List.exists_cons_of_length_eq_add_one hclock.symm
        rw [collectFor, collectFor]
        refine h.bind fun r r' hr => ?_
        cases r <;> cases r' <;>
          simp only [Round.map, reduceCtorEq, Round.last.injEq, Round.more.injEq] at hr
        · exact agree_pure (by simp [hitems])
        · exact agree_pure (by simp [hr, hitems])
        · exact ih clock' _ _ (by simpa using hclock) (by simp [hr, hitems])
  intro c d hcd
  have hlength : c.rest.length = d.rest.length := by
    simpa using congrArg List.length hcd.sights
  exact hfor c.rest d.rest [] [] hlength rfl c d hcd

theorem Agree.extend {round round' : α → Parser (Option α)} {a b : α} (hab : view a = view b)
    (h : ∀ a b, view a = view b → Agree k (Option.map view) (round a) (round' b)) :
    Agree k view (extend round a) (extend round' b) := by
  have hfor : ∀ (clock clock' : List Lexeme) (a b : α), clock.length = clock'.length →
      view a = view b →
      Agree k view (extendFor round clock a) (extendFor round' clock' b) := by
    intro clock
    induction clock with
    | nil =>
        intro clock' a b hclock hab
        obtain rfl : clock' = [] := by simpa using hclock.symm
        rw [extendFor, extendFor]
        refine (h a b hab).bind fun r r' hr => ?_
        cases r <;> cases r' <;> simp only [Option.map, reduceCtorEq] at hr
        · exact agree_pure hab
        · exact agree_failHere
    | cons l clock ih =>
        intro clock' a b hclock hab
        obtain ⟨l', clock', rfl⟩ := List.exists_cons_of_length_eq_add_one hclock.symm
        rw [extendFor, extendFor]
        refine (h a b hab).bind fun r r' hr => ?_
        cases r <;> cases r' <;> simp only [Option.map, reduceCtorEq, Option.some.injEq] at hr
        · exact agree_pure hab
        · exact ih clock' _ _ (by simpa using hclock) hr
  intro c d hcd
  have hlength : c.rest.length = d.rest.length := by
    simpa using congrArg List.length hcd.sights
  exact hfor c.rest d.rest a b hlength hab c d hcd

variable {item item' : Parser α} (h : Agree k view item item')
include h

theorem Agree.commaRound : Agree k (Round.map view) (commaRound item) (commaRound item') := by
  refine h.bind fun a b hab => (agree_eats _).same fun _ => .ite ?_ ?_
  · exact agree_pure (congrArg Round.more hab)
  · exact agree_pure (congrArg Round.last hab)

theorem Agree.commaList : Agree k (List.map view) (commaList item) (commaList item') :=
  h.commaRound.collect

theorem Agree.commaListUntil {close : Mark} :
    Agree k (List.map view) (commaListUntil close item) (commaListUntil close item') := by
  refine Agree.collect (agree_peek.same fun t => ?_)
  split
  · exact agree_pure rfl
  · exact .ite (agree_pure rfl) h.commaRound

theorem Agree.moreUntil {close : Mark} :
    Agree k (List.map view) (moreUntil close item) (moreUntil close item') := by
  refine Agree.collect ((agree_eats _).same fun _ => .ite ?_ (agree_pure rfl))
  refine (agree_isAt _).same fun _ => .ite (agree_pure rfl) ?_
  exact h.bind fun a b hab => agree_pure (congrArg Round.more hab)

theorem Agree.endedListUntil {close : Mark} :
    Agree k (List.map view) (endedListUntil close item) (endedListUntil close item') := by
  refine Agree.collect (agree_peek.same fun t => ?_)
  split
  · exact agree_pure rfl
  · refine .ite (agree_pure rfl) (h.bind fun a b hab => agree_expectEnd.same fun _ => ?_)
    exact agree_pure (congrArg Round.more hab)

end Repetition

theorem agree_nameList : Agree k (List.map Name.bare) nameList nameList :=
  agree_name.commaList

end GoGloss.Grammar
