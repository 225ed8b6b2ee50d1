import GoGloss.Proofs.Agreement.Basic
import GoGloss.Proofs.Recursion.Productions

/-!
# Readers that keep to their budget

`rank` counts the calls that a production needs on its own level, itself included. On
every level there are at most sixteen, and a level can be entered only so often. So a
call that has sixteen calls for each level left, and its rank on top, finds the budget
spent nowhere (`Cursor.Fares`).

`Tracks takes q p` says that the watched reader `q` does the same as `p` where the
budget is large enough, and how the cursor moves: it stays among the lexemes ahead, and
it has taken one of them when the result satisfies `takes`. The rules follow the steps
of a production, as those of `Agree` do.
-/

namespace GoGloss.Grammar

variable {α β : Type}

namespace Production

/-- How many calls a production needs on its own level, at most. -/
def rank : {α : Type} → Production α → Nat
  | _, expr | _, operandUnder | _, type? | _, stmt | _, nameList | _, importName?
  | _, jumpLabel _ | _, emptyStmt => 1
  | _, exprList | _, type | _, arrayLength | _, fieldNames | _, stmtList | _, parenExpr
  | _, sliceBound | _, call .. | _, elementValue | _, starExpr | _, unaryExpr _ | _, importSpec
  | _, afterExpr .. | _, rangeClause .. | _, callAfter _ | _, jumpStmt _ | _, wholeExpr
  | _, wholeStmt => 2
  | _, paramType | _, instantiated .. | _, arrayType | _, fieldDecl | _, typeTerm | _, pointerType
  | _, mapType | _, chanType | _, receiveType | _, parenType | _, block
  | _, selectorOrAssertion .. | _, sliceBounds | _, element | _, receiveExpr | _, initialValues
  | _, typeSpec | _, assignment .. | _, forStart | _, caseClause _ | _, goStmt | _, deferStmt
  | _, returnStmt => 3
  | _, typeName | _, structType | _, interfaceUnion | _, subscript | _, literalValue ..
  | _, constSpec | _, varSpec | _, afterExprs .. | _, caseBlock _ | _, blockStmt => 4
  | _, paramEntry | _, subscripted .. | _, spec _ | _, simpleStmt | _, simpleOrLabeled => 5
  | _, parameters | _, groupDecl | _, ifHeader | _, forClauses _ | _, switchHeader
  | _, commClause => 6
  | _, results | _, ifStmt | _, forHeader | _, commBlock | _, switchStmt | _, declStmt => 7
  | _, signature | _, forStmt | _, selectStmt => 8
  | _, funcType | _, interfaceMethod | _, funcDecl | _, stmtHere => 9
  | _, interfaceMember | _, funcTypeOrLit | _, decl => 10
  | _, interfaceType | _, operand | _, wholeDecl => 11
  | _, typeHere? | _, primary => 12
  | _, unary => 13
  | _, binary _ => 14

/-- Whether a production that starts at a cursor has surely taken a token, given its result. -/
def takes : {α : Type} → Production α → Cursor → α → Prop
  | _, type?, _, t | _, typeHere?, _, t => t.isSome
  | _, returnStmt, c, _ | _, jumpStmt _, c, _ => c.head.token ≠ .eof
  | _, stmt, c, _ | _, stmtHere, c, _ =>
    c.head.token ≠ .mark .semicolon ∧ c.head.token ≠ .mark .rbrace ∧ c.head.token ≠ .eof
  | _, instantiated .., _, _ | _, results, _, _ | _, arrayLength, _, _ | _, fieldNames, _, _
  | _, stmtList, _, _ | _, sliceBound, _, _ | _, sliceBounds, _, _ | _, subscript, _, _
  | _, importName?, _, _ | _, initialValues, _, _ | _, afterExpr .., _, _
  | _, afterExprs .., _, _ | _, ifHeader, _, _ | _, forClauses _, _, _ | _, forHeader, _, _
  | _, switchHeader, _, _ | _, jumpLabel _, _, _ | _, emptyStmt, _, _ | _, wholeExpr, _, _
  | _, wholeDecl, _, _ | _, wholeStmt, _, _ => False
  | _, _, _, _ => True

end Production

/-! ## Room for calls -/

/--
The cursor stands among some lexemes, with levels for all that may still be entered,
and the budget covers sixteen calls for each of them and `rank` more.
-/
structure Cursor.Fares (ls : List Lexeme) (budget levels rank : Nat) (c : Cursor) : Prop where
  stands : c.rest <:+ ls
  depth_le : c.depth ≤ maxDepth
  levels_le : maxDepth ≤ c.depth + levels
  calls_le : 16 * (maxDepth - c.depth) + rank ≤ budget

/-- How a reader leaves a cursor: further on, and with a token taken if `takes` says so. -/
def Leaves (takes : α → Prop) (c : Cursor) : EStateM.Result SyntaxError Cursor α → Prop
  | .ok a c' => c'.rest <:+ c.rest ∧ (takes a → c'.rest.length < c.rest.length) ∧
    c.depth ≤ c'.depth ∧ c'.depth ≤ maxDepth
  | .error e c' => c'.rest <:+ c.rest ∧ c'.depth ≤ maxDepth ∧ e.fault ≠ .stalled

/-- At a cursor that fares well, `q` does what `p` does, and leaves the cursor well. -/
def TracksAt (ls : List Lexeme) (budget levels rank : Nat) (takes : α → Prop) (c : Cursor)
    (q p : Parser α) : Prop :=
  c.Fares ls budget levels rank → q c = p c ∧ Leaves takes c (p c)

/-- Wherever there is room for its calls, `q` does what `p` does. -/
def Tracks (ls : List Lexeme) (budget levels rank : Nat) (takes : α → Prop) (q p : Parser α) :
    Prop :=
  ∀ c, TracksAt ls budget levels rank takes c q p

variable {ls : List Lexeme} {b n r : Nat} {takes : α → Prop} {takes' : β → Prop}
  {p q : Parser α} {f g : α → Parser β} {c : Cursor}

theorem Cursor.Fares.next {c' : Cursor} (h : c.Fares ls b n r) (hrest : c'.rest <:+ c.rest)
    (hdepth : c.depth ≤ c'.depth) (hlimit : c'.depth ≤ maxDepth) : c'.Fares ls b n r where
  stands := hrest.trans h.stands
  depth_le := hlimit
  levels_le := Nat.le_trans h.levels_le (Nat.add_le_add_right hdepth n)
  calls_le := by
    have := h.calls_le
    omega

theorem Leaves.mono {takes' : α → Prop} {result : EStateM.Result SyntaxError Cursor α}
    (h : Leaves takes c result) (himp : ∀ a, takes' a → takes a) : Leaves takes' c result := by
  cases result with
  | ok a c' => exact ⟨h.1, fun ha => h.2.1 (himp a ha), h.2.2⟩
  | error e c' => exact h

theorem TracksAt.mono {takes' : α → Prop} (h : TracksAt ls b n r takes c q p)
    (himp : ∀ a, takes' a → takes a) : TracksAt ls b n r takes' c q p := by
  intro hc
  obtain ⟨hsame, hleaves⟩ := h hc
  exact ⟨hsame, hleaves.mono himp⟩

theorem Tracks.mono {takes' : α → Prop} (h : Tracks ls b n r takes q p)
    (himp : ∀ a, takes' a → takes a) : Tracks ls b n r takes' q p :=
  fun c => (h c).mono himp

/-- That a token was taken may be forgotten. -/
theorem Tracks.forget (h : Tracks ls b n r takes q p) : Tracks ls b n r never q p :=
  h.mono fun _ => False.elim

/-- A cursor that was moved on is left further on still. -/
theorem Leaves.after {c' : Cursor} {takes₁ takes₂ : α → Prop}
    {result : EStateM.Result SyntaxError Cursor α} (h : Leaves takes₁ c' result)
    (hrest : c'.rest <:+ c.rest) (hdepth : c.depth ≤ c'.depth)
    (htaken : ∀ a, takes₂ a → takes₁ a ∨ c'.rest.length < c.rest.length) :
    Leaves takes₂ c result := by
  have hlength := hrest.length_le
  cases result with
  | error e c'' => exact ⟨h.1.trans hrest, h.2⟩
  | ok a c'' =>
      obtain ⟨hrest', htaken', hdepth', hlimit⟩ := h
      have hlength' := hrest'.length_le
      refine ⟨hrest'.trans hrest, fun ha => ?_, Nat.le_trans hdepth hdepth', hlimit⟩
      rcases htaken a ha with hlater | hbefore
      · exact Nat.lt_of_lt_of_le (htaken' hlater) hlength
      · exact Nat.lt_of_le_of_lt hlength' hbefore

/-! ## Steps one after the other -/

/-- The second reader has to take a token only if the first one did not. -/
theorem TracksAt.bind (h : TracksAt ls b n r takes c q p)
    (hf : ∀ a c', Leaves takes c (.ok a c') →
      TracksAt ls b n r (fun b => takes' b ∧ c.rest.length ≤ c'.rest.length) c' (g a) (f a)) :
    TracksAt ls b n r takes' c (q >>= g) (p >>= f) := by
  intro hc
  obtain ⟨hsame, hleaves⟩ := h hc
  change EStateM.bind q g c = EStateM.bind p f c ∧ Leaves takes' c (EStateM.bind p f c)
  unfold EStateM.bind
  rw [hsame]
  cases hrun : p c with
  | error e c' =>
      rw [hrun] at hleaves
      exact ⟨rfl, hleaves⟩
  | ok a c' =>
      rw [hrun] at hleaves
      obtain ⟨hrest, htaken, hdepth, hlimit⟩ := hleaves
      obtain ⟨hsame', hleaves'⟩ := hf a c' ⟨hrest, htaken, hdepth, hlimit⟩
        (hc.next hrest hdepth hlimit)
      refine ⟨hsame', hleaves'.after hrest hdepth fun b hb => ?_⟩
      by_cases hlt : c'.rest.length < c.rest.length
      · exact .inr hlt
      · exact .inl ⟨hb, Nat.le_of_not_lt hlt⟩

/--
A token is taken by the first reader or by the second, depending on what the first
one comes to.
-/
theorem Tracks.bindOn (h : Tracks ls b n r takes q p)
    (hyes : ∀ a, takes a → Tracks ls b n r never (g a) (f a))
    (hno : ∀ a, ¬ takes a → Tracks ls b n r takes' (g a) (f a)) :
    Tracks ls b n r takes' (q >>= g) (p >>= f) := by
  refine fun c => (h c).bind fun a c' hleaves => ?_
  by_cases ha : takes a
  · refine (hyes a ha).mono (fun b hb => ?_) c'
    have := hleaves.2.1 ha
    omega
  · exact (hno a ha).mono (fun b hb => hb.1) c'

/-- The second reader takes a token where one has to be taken. -/
theorem Tracks.bind (h : Tracks ls b n r takes q p)
    (hf : ∀ a, Tracks ls b n r takes' (g a) (f a)) :
    Tracks ls b n r takes' (q >>= g) (p >>= f) :=
  h.bindOn (fun a _ => (hf a).forget) fun a _ => hf a

/-- Of the first reader nothing is known. -/
theorem Tracks.andThen (h : Tracks ls b n r never q p)
    (hf : ∀ a, Tracks ls b n r takes' (g a) (f a)) :
    Tracks ls b n r takes' (q >>= g) (p >>= f) :=
  h.bind hf

/-- The first reader has taken a token already. -/
theorem Tracks.first (h : Tracks ls b n r always q p)
    (hf : ∀ a, Tracks ls b n r never (g a) (f a)) :
    Tracks ls b n r takes' (q >>= g) (p >>= f) :=
  h.bindOn (fun a _ => hf a) fun _ ha => (ha trivial).elim

theorem tracks_pure {a : α} (h : ¬ takes a) : Tracks ls b n r takes (pure a) (pure a) :=
  fun _ hc => ⟨rfl, List.suffix_refl _, fun ha => (h ha).elim, Nat.le_refl _, hc.depth_le⟩

theorem Tracks.map {f : α → β} (h : Tracks ls b n r takes q p)
    (hf : ∀ a, takes' (f a) → takes a) : Tracks ls b n r takes' (f <$> q) (f <$> p) := by
  rw [map_eq_pure_bind, map_eq_pure_bind]
  exact h.bindOn (fun _ _ => tracks_pure id) fun a ha => tracks_pure fun hb => ha (hf a hb)

theorem Tracks.discard (h : Tracks ls b n r always q p) :
    Tracks ls b n r always (Functor.discard q) (Functor.discard p) :=
  h.map fun _ _ => trivial

theorem Tracks.ite {cond : Prop} [Decidable cond] {p' q' : Parser α}
    (h : Tracks ls b n r takes q p) (h' : Tracks ls b n r takes q' p') :
    Tracks ls b n r takes (if cond then q else q') (if cond then p else p') := by
  split
  · exact h
  · exact h'

/-- Two ways to get at a value that the same steps go on with. -/
theorem Tracks.join {cond : Prop} [Decidable cond] {p' q' : Parser α}
    {takes₁ takes₂ : α → Prop} (h : Tracks ls b n r takes₁ q p) (h' : Tracks ls b n r takes₂ q' p')
    (hf : ∀ a, Tracks ls b n r takes' (g a) (f a)) :
    Tracks ls b n r takes' (if cond then q >>= g else q' >>= g)
      (if cond then p >>= f else p' >>= f) :=
  .ite (h.bind hf) (h'.bind hf)

theorem Tracks.some (h : Tracks ls b n r takes q p) :
    Tracks ls b n r never (Option.some <$> q) (Option.some <$> p) :=
  h.map fun _ => False.elim

/-! ## Steps that call nothing -/

/-- A reader that calls no production: it does the same watched or not. -/
class Step (p : Parser α) : Prop where
  tracks : ∀ {ls b n r}, Tracks ls b n r never p p

/-- A step that takes a token. -/
class TakingStep (p : Parser α) : Prop where
  tracks : ∀ {ls b n r}, Tracks ls b n r always p p

theorem tracks_step [h : Step p] : Tracks ls b n r never p p := h.tracks

theorem tracks_taking [h : TakingStep p] : Tracks ls b n r always p p := h.tracks

instance TakingStep.step [h : TakingStep p] : Step p := ⟨h.tracks.forget⟩

instance [h : TakingStep p] : TakingStep (discard p) := ⟨h.tracks.discard⟩

instance (a : α) : Step (pure a) := ⟨tracks_pure id⟩

instance [Step p] [∀ a, Step (f a)] : Step (p >>= f) :=
  ⟨tracks_step.bind fun _ => tracks_step⟩

instance [Step p] (f : α → β) : Step (f <$> p) := ⟨tracks_step.map fun _ => id⟩

instance [Step p] : Step (discard p) := inferInstanceAs (Step ((fun _ => ()) <$> p))

instance [Step p] [Step q] (cond : Prop) [Decidable cond] : Step (if cond then p else q) :=
  ⟨.ite tracks_step tracks_step⟩

/-! ### Looking ahead and making nodes -/

/-- A reader that leaves the lexemes and the depth alone. -/
theorem Step.of_ok (h : ∀ c, ∃ a c', p c = .ok a c' ∧ c'.rest = c.rest ∧ c'.depth = c.depth) :
    Step p where
  tracks c hc := by
    obtain ⟨a, c', hrun, hrest, hdepth⟩ := h c
    rw [hrun]
    refine ⟨rfl, hrest ▸ List.suffix_refl _, False.elim, Nat.le_of_eq hdepth.symm, ?_⟩
    exact hdepth ▸ hc.depth_le

instance : Step (get : Parser Cursor) := .of_ok fun c => ⟨_, c, rfl, rfl, rfl⟩
instance : Step (peek : Parser Token) := .of_ok fun c => ⟨_, c, rfl, rfl, rfl⟩
instance : Step (peekSecond : Parser Token) := .of_ok fun c => ⟨_, c, rfl, rfl, rfl⟩
instance : Step (here : Parser Nat) := .of_ok fun c => ⟨_, c, rfl, rfl, rfl⟩
instance (start : Nat) : Step (spanFrom start : Parser Span) :=
  .of_ok fun c => ⟨_, c, rfl, rfl, rfl⟩
instance (t : Token) : Step (isAt t : Parser Bool) := .of_ok fun c => ⟨_, c, rfl, rfl, rfl⟩
instance (x : Expr) : Step (makeExpr x) := .of_ok fun _ => ⟨_, _, rfl, rfl, rfl⟩
instance (s : Stmt) : Step (makeStmt s) := .of_ok fun _ => ⟨_, _, rfl, rfl, rfl⟩
instance (d : Decl) : Step (makeDecl d) := .of_ok fun _ => ⟨_, _, rfl, rfl, rfl⟩
instance (f : Field) : Step (makeField f) := .of_ok fun _ => ⟨_, _, rfl, rfl, rfl⟩

instance (f : Cursor → Workbench) :
    Step (modify fun c => { c with bench := f c } : Parser PUnit) :=
  .of_ok fun _ => ⟨_, _, rfl, rfl, rfl⟩

instance (fs : List Field) : Step (fs.mapM makeField) := by
  induction fs with
  | nil => exact inferInstanceAs (Step (pure []))
  | cons f fs ih =>
      rw [List.mapM_cons]
      infer_instance

instance (xs : List Expr) : Step (xs.forM fun x => discard (makeExpr x)) := by
  induction xs with
  | nil => exact inferInstanceAs (Step (pure PUnit.unit))
  | cons x xs ih => exact inferInstanceAs (Step (discard (makeExpr x) >>= fun _ => xs.forM _))

/-! ### Stopping -/

/-- A reader that stops where it is, and not for want of progress. -/
theorem tracks_error {e : Cursor → SyntaxError} (h : ∀ c, p c = .error (e c) c)
    (he : ∀ c, (e c).fault ≠ .stalled) : Tracks ls b n r takes p p := by
  intro c hc
  rw [h c]
  exact ⟨rfl, List.suffix_refl _, hc.depth_le, he c⟩

theorem tracks_failAt {span : Span} {fault : Fault} (h : fault ≠ .stalled) :
    Tracks ls b n r takes (failAt span fault) (failAt span fault) :=
  tracks_error (fun _ => rfl) fun _ => h

theorem tracks_failHere {fault : Fault} (h : fault ≠ .stalled) :
    Tracks ls b n r takes (failHere fault) (failHere fault) :=
  tracks_error (fun _ => rfl) fun _ => h

theorem tracks_failExpected {wanted : Wanted} :
    Tracks ls b n r takes (failExpected wanted) (failExpected wanted) :=
  tracks_error (fun _ => rfl) fun _ => Fault.noConfusion

/-! ### Taking tokens -/

/-- Where the source has not ended, taking a token leaves fewer. -/
theorem Cursor.length_advance_lt (h : c.head.token ≠ .eof) :
    c.advance.rest.length < c.rest.length := by
  unfold Cursor.head at h
  cases hrest : c.rest with
  | nil => simp [hrest] at h
  | cons l rest => simp [Cursor.advance, hrest]

theorem leaves_advance {a : α} (hc : c.depth ≤ maxDepth) (h : takes a → c.head.token ≠ .eof) :
    Leaves takes c (.ok a c.advance) :=
  ⟨List.tail_suffix _, fun ha => Cursor.length_advance_lt (h ha), Nat.le_refl _, hc⟩

instance : Step (take : Parser Span) := ⟨fun _ hc => ⟨rfl, leaves_advance hc.depth_le False.elim⟩⟩

/-- Before the end of the source, taking the token ahead takes one. -/
theorem tracksAt_take : TracksAt ls b n r (fun _ => c.head.token ≠ .eof) c take take :=
  fun hc => ⟨rfl, leaves_advance hc.depth_le id⟩

theorem tracksAt_discard_take :
    TracksAt ls b n r (fun _ => c.head.token ≠ .eof) c (discard take) (discard take) :=
  fun hc => ⟨rfl, leaves_advance hc.depth_le id⟩

/-- A token taken first is taken, whatever comes after it. -/
theorem TracksAt.first {taken : Prop} (h : TracksAt ls b n r (fun _ => taken) c q p)
    (hf : ∀ a, Tracks ls b n r never (g a) (f a)) (htakes : ∀ a, takes' a → taken) :
    TracksAt ls b n r takes' c (q >>= g) (p >>= f) := by
  refine h.bind fun a c' hleaves => (hf a).mono (fun b hb => ?_) c'
  have := hleaves.2.1 (htakes b hb.1)
  omega

/-- What is done next depends on the token that the cursor shows. -/
theorem tracksAt_peek_bind {f g : Token → Parser β}
    (h : TracksAt ls b n r takes' c (g c.head.token) (f c.head.token)) :
    TracksAt ls b n r takes' c (peek >>= g) (peek >>= f) := h

theorem tracksAt_here_bind {f g : Nat → Parser β}
    (h : TracksAt ls b n r takes' c (g c.head.start) (f c.head.start)) :
    TracksAt ls b n r takes' c (here >>= g) (here >>= f) := h

theorem eat_eq (t : Token) (c : Cursor) : eat t c =
    if c.head.token = t then .ok (some c.head.span) c.advance else .ok none c := by
  change (if decide (c.head.token = t) then (do return some (← take)) else pure none : Parser _) c
    = _
  by_cases h : c.head.token = t
  · rw [if_pos (by simpa using h), if_pos h]
    rfl
  · rw [if_neg (by simpa using h), if_neg h]
    rfl

theorem tracks_eat_of {t : Token} {takes : Option Span → Prop}
    (hsome : ∀ span, takes (some span) → t ≠ .eof) (hnone : ¬ takes none) :
    Tracks ls b n r takes (eat t) (eat t) := by
  intro c hc
  refine ⟨rfl, ?_⟩
  rw [eat_eq]
  split
  · next h => exact leaves_advance hc.depth_le fun hspan => h ▸ hsome _ hspan
  · exact ⟨List.suffix_refl _, fun h => (hnone h).elim, Nat.le_refl _, hc.depth_le⟩

theorem tracks_eat {t : Token} (ht : t ≠ .eof) :
    Tracks ls b n r (fun span => span.isSome) (eat t) (eat t) :=
  tracks_eat_of (fun _ _ => ht) (by simp)

theorem tracks_eats {t : Token} (ht : t ≠ .eof) :
    Tracks ls b n r (fun eaten => eaten = true) (eats t) (eats t) :=
  (tracks_eat ht).bindOn (fun _ _ => tracks_pure id) fun _ h => tracks_pure h

theorem tracks_expect {t : Token} (ht : t ≠ .eof) :
    Tracks ls b n r always (expect t) (expect t) := by
  refine (tracks_eat ht).bindOn (fun span _ => ?_) fun span h => ?_
  · split
    · exact tracks_pure id
    · exact tracks_failExpected
  · cases span with
    | none => exact tracks_failExpected
    | some span => exact (h rfl).elim

instance (t : Token) : Step (eat t : Parser (Option Span)) :=
  ⟨tracks_eat_of (fun _ => False.elim) id⟩

instance (t : Token) : Step (eats t : Parser Bool) :=
  inferInstanceAs (Step (eat t >>= fun span => pure span.isSome))

instance (t : Token) : Step (expect t : Parser Span) := by
  refine ⟨tracks_step.bind fun span => ?_⟩
  split
  · exact tracks_step
  · exact tracks_failExpected

instance (m : Mark) : TakingStep (expect (.mark m) : Parser Span) :=
  ⟨tracks_expect Token.noConfusion⟩

instance (word : Keyword) : TakingStep (expect (.keyword word) : Parser Span) :=
  ⟨tracks_expect Token.noConfusion⟩

instance : Step (expectEnd : Parser Unit) := by
  refine ⟨tracks_step.bind fun t => ?_⟩
  split
  · exact tracks_step
  · exact tracks_step
  · exact tracks_step
  · exact tracks_step
  · exact tracks_failExpected

instance : TakingStep name := by
  refine ⟨fun c => tracksAt_peek_bind ?_⟩
  split
  · next h => exact tracksAt_take.first (fun _ => tracks_step) fun _ _ => by simp [h]
  · exact tracks_failExpected c

theorem tracks_textLiteral? :
    Tracks ls b n r (fun literal => literal.isSome) textLiteral? textLiteral? := by
  refine fun c => tracksAt_peek_bind ?_
  split
  · next h =>
      split
      · exact tracksAt_take.first (fun _ => tracks_step) fun _ _ => by simp [h]
      · exact tracks_pure (by simp) c
  · exact tracks_pure (by simp) c

instance : Step (textLiteral? : Parser (Option Literal)) := ⟨tracks_textLiteral?.forget⟩

/-! ## Nesting -/

/-- One level deeper there is one level less to go, and sixteen calls are to spare. -/
theorem Cursor.Fares.enter (h : c.Fares ls b n r) (hdepth : c.depth < maxDepth) :
    ∃ m, n = m + 1 ∧ (c.withDepth (c.depth + 1)).Fares ls b m (r + 16) := by
  have hlevels := h.levels_le
  have hcalls := h.calls_le
  refine ⟨n - 1, by omega, h.stands, hdepth, ?_, ?_⟩
  · rw [Cursor.withDepth_depth]
    omega
  · rw [Cursor.withDepth_depth]
    omega

instance : Step (enter : Parser Unit) where
  tracks c hc := by
    refine ⟨rfl, ?_⟩
    rw [enter_eq]
    split
    · exact ⟨List.suffix_refl _, hc.depth_le, Fault.noConfusion⟩
    · next h => exact ⟨List.suffix_refl _, False.elim, Nat.le_succ _, Nat.lt_of_not_le h⟩

/-- What is read after a level was entered has the calls of that level. -/
theorem tracks_enter_bind {q p : Parser β}
    (h : ∀ m, n = m + 1 → Tracks ls b m (r + 16) takes' q p) :
    Tracks ls b n r takes' (enter >>= fun _ => q) (enter >>= fun _ => p) := by
  intro c hc
  change EStateM.bind enter _ c = EStateM.bind enter _ c ∧
    Leaves takes' c (EStateM.bind enter _ c)
  unfold EStateM.bind
  rw [enter_eq]
  by_cases hdepth : maxDepth ≤ c.depth
  · rw [if_pos hdepth]
    exact ⟨rfl, List.suffix_refl _, hc.depth_le, Fault.noConfusion⟩
  · rw [if_neg hdepth]
    obtain ⟨m, hm, hc'⟩ := hc.enter (Nat.lt_of_not_le hdepth)
    obtain ⟨hsame, hleaves⟩ := h m hm _ hc'
    exact ⟨hsame, hleaves.after (List.suffix_refl _) (Nat.le_succ _) fun _ hb => .inl hb⟩

/-- What is nested has a level of its own, and the depth is put back after it. -/
theorem tracksAt_nested
    (h : ∀ m, n = m + 1 → TracksAt ls b m 16 takes (c.withDepth (c.depth + 1)) q p) :
    TracksAt ls b n r takes c (nested q) (nested p) := by
  intro hc
  change leavingDepth c.depth (EStateM.bind enter _) c =
      leavingDepth c.depth (EStateM.bind enter _) c
    ∧ Leaves takes c (leavingDepth c.depth (EStateM.bind enter _) c)
  unfold leavingDepth EStateM.bind
  rw [enter_eq]
  by_cases hdepth : maxDepth ≤ c.depth
  · rw [if_pos hdepth]
    exact ⟨rfl, List.suffix_refl _, hc.depth_le, Fault.noConfusion⟩
  · rw [if_neg hdepth]
    obtain ⟨m, hm, hc'⟩ := hc.enter (Nat.lt_of_not_le hdepth)
    obtain ⟨hsame, hleaves⟩ := h m hm ⟨hc'.stands, hc'.depth_le, hc'.levels_le,
      Nat.le_trans (Nat.add_le_add_left (Nat.le_add_left _ _) _) hc'.calls_le⟩
    dsimp only
    rw [hsame]
    cases hrun : p (c.withDepth (c.depth + 1)) with
    | ok a c' =>
        rw [hrun] at hleaves
        exact ⟨rfl, hleaves.1, hleaves.2.1, Nat.le_refl _, hc.depth_le⟩
    | error e c' =>
        rw [hrun] at hleaves
        exact ⟨rfl, hleaves.1, hc.depth_le, hleaves.2.2⟩

instance (f : Cursor → Int) :
    Step (modify fun c => { c with exprLevel := f c } : Parser PUnit) :=
  .of_ok fun _ => ⟨_, _, rfl, rfl, rfl⟩

theorem Tracks.keeping {level : Cursor → Int} (h : Tracks ls b n r takes q p) :
    Tracks ls b n r takes (do let a ← q; modify fun c => { c with exprLevel := level c }; return a)
      (do let a ← p; modify fun c => { c with exprLevel := level c }; return a) :=
  h.bindOn (fun _ _ => tracks_step) fun _ ha => tracks_step.bind fun _ => tracks_pure ha

theorem Tracks.bracketed (h : Tracks ls b n r takes q p) :
    Tracks ls b n r takes (bracketed q) (bracketed p) :=
  tracks_step.bind fun _ => h.keeping

theorem Tracks.inHeader (h : Tracks ls b n r takes q p) :
    Tracks ls b n r takes (inHeader q) (inHeader p) :=
  tracks_step.bind fun _ => (tracks_step.bind fun _ => h).keeping

/-! ## Repetition -/

/-- A round that goes on only when it has taken a token is not refused. -/
theorem Tracks.gaining {goesOn : α → Bool} (h : Tracks ls b n r takes q p)
    (hgoes : ∀ a, goesOn a → takes a) : Tracks ls b n r takes (gaining goesOn q) p := by
  intro c hc
  obtain ⟨hsame, hleaves⟩ := h c hc
  refine ⟨?_, hleaves⟩
  change EStateM.bind q _ c = p c
  unfold EStateM.bind
  rw [hsame]
  cases hrun : p c with
  | error e c' => rfl
  | ok a c' =>
      rw [hrun] at hleaves
      change (if goesOn a && decide (c.rest.length ≤ c'.rest.length) then failHere .stalled
        else pure a : Parser α) c' = .ok a c'
      rw [if_neg]
      · rfl
      · intro hstalled
        rw [Bool.and_eq_true, decide_eq_true_eq] at hstalled
        have := hleaves.2.1 (hgoes a hstalled.1)
        omega

/--
A list whose rounds take a token whenever they go on never stalls: the clock has a
lexeme for every token. If each round takes one, so does the list.
-/
theorem Tracks.collect {q p : Parser (Round α)} {each : Prop}
    (h : Tracks ls b n r (fun round => round.goesOn ∨ each) q p) :
    Tracks ls b n r (fun _ => each) (Loops.gaining.collect q) (Loops.plain.collect p) := by
  have hround : Tracks ls b n r (fun round => round.goesOn ∨ each)
      (Grammar.gaining Round.goesOn q) p :=
    h.gaining fun _ => .inl
  have hfor : ∀ (clock : List Lexeme) (items : List α) (c : Cursor),
      c.rest.length ≤ clock.length → TracksAt ls b n r (fun _ => each) c
        (collectFor (Grammar.gaining Round.goesOn q) clock items) (collectFor p clock items) := by
    intro clock
    induction clock with
    | nil =>
        intro items c hclock
        rw [collectFor, collectFor]
        refine (hround c).bind fun round c' hleaves => ?_
        obtain ⟨_, htaken, _⟩ := hleaves
        cases round with
        | done | last item =>
            refine tracks_pure (fun hlater => ?_) c'
            have := htaken (.inr hlater.1)
            omega
        | more item =>
            have := htaken (.inl rfl)
            rw [List.length_nil] at hclock
            omega
    | cons l clock ih =>
        intro items c hclock
        rw [collectFor, collectFor]
        refine (hround c).bind ?_
        rintro round c' ⟨_, htaken, _⟩
        cases round with
        | done | last item =>
            refine tracks_pure (fun hlater => ?_) c'
            have := htaken (.inr hlater.1)
            omega
        | more item =>
            have hlt := htaken (.inl rfl)
            rw [List.length_cons] at hclock
            intro hc'
            obtain ⟨hsame, hleft⟩ := ih (item :: items) c' (by omega) hc'
            exact ⟨hsame, hleft.mono fun _ hlater => hlater.1⟩
  exact fun c hc => hfor c.rest [] c (Nat.le_refl _) hc

theorem Tracks.extend {q p : α → Parser (Option α)}
    (h : ∀ a, Tracks ls b n r (fun next => next.isSome) (q a) (p a)) (a : α) :
    Tracks ls b n r never (Loops.gaining.extend q a) (Loops.plain.extend p a) := by
  have hround : ∀ a, Tracks ls b n r (fun next => next.isSome)
      (Grammar.gaining Option.isSome (q a)) (p a) := fun a => (h a).gaining fun _ ha => ha
  have hfor : ∀ (clock : List Lexeme) (a : α) (c : Cursor), c.rest.length ≤ clock.length →
      TracksAt ls b n r never c (extendFor (fun a => Grammar.gaining Option.isSome (q a)) clock a)
        (extendFor p clock a) := by
    intro clock
    induction clock with
    | nil =>
        intro a c hclock
        rw [extendFor, extendFor]
        refine (hround a c).bind fun next c' hleaves => ?_
        obtain ⟨_, htaken, _⟩ := hleaves
        cases next with
        | none => exact tracks_pure (fun hlater => hlater.1) c'
        | some next =>
            have := htaken rfl
            rw [List.length_nil] at hclock
            omega
    | cons l clock ih =>
        intro a c hclock
        rw [extendFor, extendFor]
        refine (hround a c).bind ?_
        rintro next c' ⟨_, htaken, _⟩
        cases next with
        | none => exact tracks_pure (fun hlater => hlater.1) c'
        | some next =>
            have hlt := htaken rfl
            rw [List.length_cons] at hclock
            intro hc'
            obtain ⟨hsame, hleft⟩ := ih next c' (by omega) hc'
            exact ⟨hsame, hleft.mono fun _ hlater => hlater.1⟩
  exact fun c hc => hfor c.rest a c (Nat.le_refl _) hc

section Lists

variable {close : Mark}

theorem Tracks.commaRound {each : Prop} (h : Tracks ls b n r (fun _ => each) q p) :
    Tracks ls b n r (fun round => round.goesOn ∨ each) (commaRound q) (commaRound p) := by
  refine h.bindOn (fun a _ => tracks_step) fun a hno => ?_
  refine (tracks_eats Token.noConfusion).bindOn (fun _ _ => tracks_step) fun eaten heaten => ?_
  rw [if_neg heaten]
  exact tracks_pure fun hlater => hlater.elim (by simp [Round.goesOn]) hno

theorem Tracks.commaUntilRound (h : Tracks ls b n r never q p) :
    Tracks ls b n r (fun round => round.goesOn ∨ False) (commaUntilRound close q)
      (commaUntilRound close p) := by
  refine tracks_step.bind fun t => ?_
  split
  · exact tracks_pure (by simp [Round.goesOn])
  · exact .ite (tracks_pure (by simp [Round.goesOn])) h.commaRound

theorem Tracks.moreRound (h : Tracks ls b n r never q p) :
    Tracks ls b n r (fun round => round.goesOn ∨ False) (moreRound close q) (moreRound close p) := by
  refine (tracks_eats Token.noConfusion).bindOn (fun eaten _ => ?_) fun eaten heaten => ?_
  · refine .ite (tracks_step.bind fun _ => ?_) tracks_step
    exact .ite tracks_step (h.bind fun _ => tracks_step)
  · rw [if_neg heaten, if_neg heaten]
    exact tracks_pure (by simp [Round.goesOn])

theorem Tracks.endedRound (h : Tracks ls b n r always q p) :
    Tracks ls b n r (fun round => round.goesOn ∨ False) (endedRound close q) (endedRound close p) := by
  refine tracks_step.bind fun t => ?_
  split
  · exact tracks_pure (by simp [Round.goesOn])
  · exact .ite (tracks_pure (by simp [Round.goesOn])) (h.first fun _ => tracks_step)

theorem Tracks.argRound {q p : Parser Expr} (h : Tracks ls b n r never q p) :
    Tracks ls b n r (fun round => round.goesOn ∨ False) (Body.argRound q) (Body.argRound p) := by
  refine tracks_step.bind fun t => ?_
  split
  · exact tracks_pure (by simp [Round.goesOn])
  · exact tracks_pure (by simp [Round.goesOn])
  · refine h.bind fun x => tracks_step.bind fun dots => ?_
    split
    · exact tracks_step.bind fun _ => tracks_pure (by simp [Round.goesOn])
    · refine (tracks_eats Token.noConfusion).bindOn (fun _ _ => tracks_step) fun eaten heaten => ?_
      rw [if_neg heaten]
      exact tracks_pure (by simp [Round.goesOn])

theorem Tracks.clauseBlock {q p : Parser Stmt} (h : Tracks ls b n r always q p) :
    Tracks ls b n r always (Body.block (Loops.gaining.collect (Body.clauseRound q)))
      (Body.block (Loops.plain.collect (Body.clauseRound p))) := by
  have hround : Tracks ls b n r (fun round => round.goesOn ∨ False) (Body.clauseRound q)
      (Body.clauseRound p) := by
    refine tracks_step.bind fun t => ?_
    split
    · exact h.first fun _ => tracks_step
    · exact h.first fun _ => tracks_step
    · exact tracks_pure (by simp [Round.goesOn])
  exact tracks_taking.first fun _ => hround.collect.bind fun _ => tracks_step

/-- Semicolons are taken one by one. -/
theorem tracks_semicolons : Tracks ls b n r never (Loops.gaining.extend semicolonRound ())
    (Loops.plain.extend semicolonRound ()) := by
  refine Tracks.extend (fun _ => ?_) ()
  refine (tracks_eats Token.noConfusion).bindOn (fun _ _ => tracks_step) fun eaten heaten => ?_
  rw [if_neg heaten]
  exact tracks_pure (by simp)

end Lists

/-! ## Calls -/

theorem Tracks.watched {ok : Cursor → Prop} [DecidablePred ok]
    (hok : ∀ c : Cursor, c.rest <:+ ls → c.depth ≤ maxDepth → ok c)
    (h : TracksAt ls b n r takes c q p) :
    TracksAt ls (b + 1) n (r + 1) takes c (watched ok q) p := by
  intro hc
  have hcalls := hc.calls_le
  obtain ⟨hsame, hleaves⟩ := h ⟨hc.stands, hc.depth_le, hc.levels_le, by omega⟩
  refine ⟨?_, hleaves⟩
  unfold Grammar.watched
  rw [if_pos (hok c hc.stands hc.depth_le), hsame]
  cases hrun : p c with
  | ok a c' =>
      rw [hrun] at hleaves
      exact if_pos (hok c' (hleaves.1.trans hc.stands) hleaves.2.2.2)
  | error e c' =>
      rw [hrun] at hleaves
      exact if_pos (hok c' (hleaves.1.trans hc.stands) hleaves.2.1)

/-- With `b` calls to go, every call does what the production does. -/
def Follows (ls : List Lexeme) (b : Nat) (call : ∀ {α : Type}, Production α → Parser α) : Prop :=
  ∀ {α : Type} (p : Production α) (n : Nat) (c : Cursor),
    TracksAt ls b n p.rank (p.takes c) c (call p) (p.reader (inner n))

section Follows

variable {call : ∀ {α : Type}, Production α → Parser α} (h : Follows ls b call)
  (p : Production α)
include h

/-- A call is within the room of one that needs at least as much. -/
theorem Follows.at (hrank : p.rank ≤ r) (c : Cursor) :
    TracksAt ls b n r (p.takes c) c (call p) (p.reader (inner n)) := by
  intro hc
  have hcalls := hc.calls_le
  exact h p n c ⟨hc.stands, hc.depth_le, hc.levels_le, by omega⟩

theorem Follows.calls (hrank : p.rank.ble r = true) :
    Tracks ls b n r never (call p) (p.reader (inner n)) :=
  fun c => (h.at p (Nat.le_of_ble_eq_true hrank) c).mono fun _ => False.elim

theorem Follows.taking (hrank : p.rank.ble r = true) (htakes : p.takes = fun _ _ => True) :
    Tracks ls b n r always (call p) (p.reader (inner n)) :=
  fun c => (h.at p (Nat.le_of_ble_eq_true hrank) c).mono fun a _ => by rw [htakes]; trivial

/-- A level that is entered has sixteen calls, more than any production needs. -/
theorem Follows.nestedAt (hrank : p.rank.ble 16 = true)
    (hwithin : ∀ m, p.within (inner (m + 1)) = p.reader (inner m)) (c : Cursor) :
    TracksAt ls b n r (p.takes (c.withDepth (c.depth + 1))) c (nested (call p))
      (nested (p.within (inner n))) := by
  refine tracksAt_nested fun m hm => ?_
  subst hm
  rw [hwithin]
  exact h.at p (Nat.le_of_ble_eq_true hrank) _

theorem Follows.nested (hrank : p.rank.ble 16 = true)
    (hwithin : ∀ m, p.within (inner (m + 1)) = p.reader (inner m))
    (htakes : p.takes = fun _ _ => True) :
    Tracks ls b n r always (nested (call p)) (nested (p.within (inner n))) :=
  fun c => (h.nestedAt p hrank hwithin c).mono fun a _ => by rw [htakes]; trivial

end Follows

end GoGloss.Grammar
