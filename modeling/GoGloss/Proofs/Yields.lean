import GoGloss.Fragment

/-!
# What a reader yields

The productions of the grammar are programs over the cursor, and every fact about
them has the same form: *if* the production succeeds here, *then* what it returns
and where it leaves the cursor stand in some relation to where it started.
`Yields p c post` is that form. The lemmas below say for each step a production
can take what has to hold before it for `post` to hold after it, so a production
is walked through by rewriting, and its parts are looked up, never opened twice.

A failing reader yields anything: what is said here is about fragments that are
accepted.
-/

namespace GoGloss.Grammar

variable {α β : Type}

/-- If the reader succeeds from `c`, its result and the cursor after it satisfy `post`. -/
def Yields (p : Parser α) (c : Cursor) (post : α → Cursor → Prop) : Prop :=
  ∀ a c', p c = .ok a c' → post a c'

/-- What a reader yields may be weakened. -/
theorem Yields.mono {p : Parser α} {c : Cursor} {post post' : α → Cursor → Prop}
    (h : Yields p c post) (himp : ∀ a c', post a c' → post' a c') : Yields p c post' :=
  fun a c' hrun => himp a c' (h a c' hrun)

@[simp]
theorem yields_true {p : Parser α} {c : Cursor} : Yields p c fun _ _ => True :=
  fun _ _ _ => trivial

/-! ## Whether a token was taken

Said of the result of a reader, since it may depend on it. -/

/-- Of no result is it said that a token was taken. -/
def never (_ : α) : Prop := False

/-- A token was taken, whatever the result. -/
def always (_ : α) : Prop := True

/-! ## Moving the cursor -/

namespace Cursor

/-- The cursor with another workbench. -/
def withBench (c : Cursor) (w : Workbench) : Cursor := { c with bench := w }

/-- The cursor at another depth. -/
def withDepth (c : Cursor) (n : Nat) : Cursor := { c with depth := n }

/-- The cursor at another expression level. -/
def withExprLevel (c : Cursor) (n : Int) : Cursor := { c with exprLevel := n }

variable (c : Cursor) (w : Workbench) (n : Nat) (i : Int)

@[simp] theorem withBench_rest : (c.withBench w).rest = c.rest := rfl
@[simp] theorem withBench_head : (c.withBench w).head = c.head := rfl
@[simp] theorem withBench_second : (c.withBench w).second = c.second := rfl
@[simp] theorem withBench_depth : (c.withBench w).depth = c.depth := rfl
@[simp] theorem withBench_exprLevel : (c.withBench w).exprLevel = c.exprLevel := rfl
@[simp] theorem withDepth_rest : (c.withDepth n).rest = c.rest := rfl
@[simp] theorem withDepth_head : (c.withDepth n).head = c.head := rfl
@[simp] theorem withDepth_second : (c.withDepth n).second = c.second := rfl
@[simp] theorem withDepth_depth : (c.withDepth n).depth = n := rfl
@[simp] theorem withDepth_exprLevel : (c.withDepth n).exprLevel = c.exprLevel := rfl
@[simp] theorem withExprLevel_rest : (c.withExprLevel i).rest = c.rest := rfl
@[simp] theorem withExprLevel_head : (c.withExprLevel i).head = c.head := rfl
@[simp] theorem withExprLevel_second : (c.withExprLevel i).second = c.second := rfl
@[simp] theorem withExprLevel_depth : (c.withExprLevel i).depth = c.depth := rfl
@[simp] theorem withExprLevel_exprLevel : (c.withExprLevel i).exprLevel = i := rfl
@[simp] theorem advance_rest : c.advance.rest = c.rest.tail := rfl
@[simp] theorem advance_depth : c.advance.depth = c.depth := rfl
@[simp] theorem advance_exprLevel : c.advance.exprLevel = c.exprLevel := rfl

end Cursor

/-! ## Steps -/

variable {c : Cursor} {post : α → Cursor → Prop}

@[simp]
theorem yields_pure {a : α} : Yields (pure a) c post ↔ post a c :=
  ⟨fun h => h a c rfl, fun h a' c' hrun => by cases hrun; exact h⟩

@[simp]
theorem yields_bind {p : Parser β} {f : β → Parser α} :
    Yields (p >>= f) c post ↔ Yields p c fun b c' => Yields (f b) c' post := by
  have hok : ∀ b c', p c = .ok b c' → (p >>= f) c = f b c' := by
    intro b c' hb
    change EStateM.bind p f c = f b c'
    rw [EStateM.bind, hb]
  constructor
  · intro h b c' hb a c'' ha
    exact h a c'' (by rw [hok b c' hb]; exact ha)
  · intro h a c'' ha
    cases hb : p c with
    | ok b c' => exact h b c' hb a c'' (by rw [← hok b c' hb]; exact ha)
    | error e c' =>
      change EStateM.bind p f c = _ at ha
      rw [EStateM.bind, hb] at ha
      cases ha

@[simp]
theorem yields_map {p : Parser β} {f : β → α} :
    Yields (f <$> p) c post ↔ Yields p c fun b c' => post (f b) c' := by
  rw [map_eq_pure_bind, yields_bind]
  simp only [yields_pure]

@[simp]
theorem yields_discard {p : Parser β} {post : Unit → Cursor → Prop} :
    Yields (discard p) c post ↔ Yields p c fun _ c' => post () c' :=
  yields_map (f := fun _ => ())

@[simp]
theorem yields_ite {b : Prop} [Decidable b] {p q : Parser α} :
    Yields (if b then p else q) c post ↔ (b → Yields p c post) ∧ (¬ b → Yields q c post) := by
  by_cases hb : b <;> simp [hb]

@[simp]
theorem yields_get {post : Cursor → Cursor → Prop} : Yields get c post ↔ post c c :=
  ⟨fun h => h c c rfl, fun h a' c' hrun => by cases hrun; exact h⟩

@[simp]
theorem yields_set {c' : Cursor} {post : PUnit → Cursor → Prop} :
    Yields (set c') c post ↔ post ⟨⟩ c' :=
  ⟨fun h => h ⟨⟩ c' rfl, fun h a' c' hrun => by cases hrun; exact h⟩

@[simp]
theorem yields_modify {f : Cursor → Cursor} {post : PUnit → Cursor → Prop} :
    Yields (modify f) c post ↔ post ⟨⟩ (f c) :=
  ⟨fun h => h ⟨⟩ (f c) rfl, fun h a' c' hrun => by cases hrun; exact h⟩

@[simp]
theorem yields_failAt {span : Span} {fault : Fault} : Yields (failAt span fault) c post := by
  intro a c' hrun
  cases hrun

@[simp]
theorem yields_failHere {fault : Fault} : Yields (failHere fault) c post := by
  simp [failHere]

@[simp]
theorem yields_failExpected {wanted : Wanted} : Yields (failExpected wanted) c post := by
  simp [failExpected]

/-! ## Looking ahead and taking tokens -/

@[simp]
theorem yields_peek {post : Token → Cursor → Prop} : Yields peek c post ↔ post c.head.token c := by
  simp [peek]

@[simp]
theorem yields_peekSecond {post : Token → Cursor → Prop} :
    Yields peekSecond c post ↔ post c.second c := by
  simp [peekSecond]

@[simp]
theorem yields_here {post : Nat → Cursor → Prop} : Yields here c post ↔ post c.head.start c := by
  simp [here]

@[simp]
theorem yields_spanFrom {start : Nat} {post : Span → Cursor → Prop} :
    Yields (spanFrom start) c post ↔ post (c.spanFrom start) c := by
  simp [spanFrom]

@[simp]
theorem yields_isAt {t : Token} {post : Bool → Cursor → Prop} :
    Yields (isAt t) c post ↔ post (c.head.token = t) c := by
  simp [isAt]

@[simp]
theorem yields_take {post : Span → Cursor → Prop} :
    Yields take c post ↔ post c.head.span c.advance := by
  simp [take]

@[simp]
theorem yields_eat {t : Token} {post : Option Span → Cursor → Prop} :
    Yields (eat t) c post ↔
      (c.head.token = t → post (some c.head.span) c.advance) ∧
      (c.head.token ≠ t → post none c) := by
  simp [eat]

@[simp]
theorem yields_eats {t : Token} {post : Bool → Cursor → Prop} :
    Yields (eats t) c post ↔
      (c.head.token = t → post true c.advance) ∧ (c.head.token ≠ t → post false c) := by
  simp [eats]

@[simp]
theorem yields_expect {t : Token} {post : Span → Cursor → Prop} :
    Yields (expect t) c post ↔ (c.head.token = t → post c.head.span c.advance) := by
  simp [expect]

/-- What ends a statement is a semicolon, or nothing in front of a closing delimiter. -/
theorem yields_expectEnd {post : Unit → Cursor → Prop} :
    Yields expectEnd c post ↔
      (c.head.token = .mark .semicolon → post () c.advance) ∧
      (c.head.token = .mark .rparen ∨ c.head.token = .mark .rbrace ∨ c.head.token = .eof →
        post () c) := by
  simp only [expectEnd, yields_bind, yields_peek]
  split <;> simp_all

/-! ## Making nodes -/

@[simp]
theorem yields_makeExpr {x : Expr} {post : Expr → Cursor → Prop} :
    Yields (makeExpr x) c post ↔ post x (c.withBench (c.bench.addExpr x)) := by
  simp [makeExpr, Cursor.withBench]

@[simp]
theorem yields_makeStmt {s : Stmt} {post : Stmt → Cursor → Prop} :
    Yields (makeStmt s) c post ↔ post s (c.withBench (c.bench.addStmt s)) := by
  simp [makeStmt, Cursor.withBench]

@[simp]
theorem yields_makeDecl {d : Decl} {post : Decl → Cursor → Prop} :
    Yields (makeDecl d) c post ↔ post d (c.withBench (c.bench.addDecl d)) := by
  simp [makeDecl, Cursor.withBench]

@[simp]
theorem yields_makeField {f : Field} {post : Field → Cursor → Prop} :
    Yields (makeField f) c post ↔ post f (c.withBench (c.bench.addField f)) := by
  simp [makeField, Cursor.withBench]

theorem yields_name {post : Name → Cursor → Prop} :
    Yields name c post ↔ ∀ text, c.head.token = .name text →
      post ⟨text, c.head.span⟩ (c.advance.withBench (c.bench.addName text)) := by
  simp only [name, yields_bind, yields_peek]
  split
  · simp_all [Cursor.withBench, Cursor.advance]
  · simp_all

theorem yields_textLiteral? {post : Option Literal → Cursor → Prop} :
    Yields textLiteral? c post ↔
      (∀ kind text, c.head.token = .literal kind text → kind.isText →
        post (some ⟨kind, c.head.span, text⟩) c.advance) ∧
      (c.head.token.isTextLiteral = false → post none c) := by
  simp only [textLiteral?, yields_bind, yields_peek]
  split
  · simp_all [Token.isTextLiteral]
  · simp_all [Token.isTextLiteral]

/-! ## Nesting -/

@[simp]
theorem yields_enter {post : Unit → Cursor → Prop} :
    Yields enter c post ↔ (c.depth < maxDepth → post () (c.withDepth (c.depth + 1))) := by
  simp [enter, Cursor.withDepth]

@[simp]
theorem yields_leavingDepth {n : Nat} {p : Parser α} :
    Yields (leavingDepth n p) c post ↔ Yields p c fun a c' => post a (c'.withDepth n) := by
  have hok : ∀ a c', p c = .ok a c' → leavingDepth n p c = .ok a (c'.withDepth n) := by
    intro a c' hp
    simp only [leavingDepth, hp, Cursor.withDepth]
  constructor
  · intro h a c' hp
    exact h a _ (hok a c' hp)
  · intro h a c' hrun
    cases hp : p c with
    | ok b c₁ =>
      rw [hok b c₁ hp] at hrun
      cases hrun
      exact h _ _ hp
    | error e c₁ => simp [leavingDepth, hp] at hrun

@[simp]
theorem yields_nested {p : Parser α} :
    Yields (nested p) c post ↔
      (c.depth < maxDepth →
        Yields p (c.withDepth (c.depth + 1)) fun a c' => post a (c'.withDepth c.depth)) := by
  simp [nested]

@[simp]
theorem yields_leavingExprLevel {i : Int} {p : Parser α} :
    Yields (leavingExprLevel i p) c post ↔
      Yields p c fun a c' => post a (c'.withExprLevel i) := by
  simp [leavingExprLevel, Cursor.withExprLevel]

@[simp]
theorem yields_bracketed {p : Parser α} :
    Yields (bracketed p) c post ↔
      Yields p (c.withExprLevel (c.exprLevel + 1)) fun a c' =>
        post a (c'.withExprLevel (c'.exprLevel - 1)) := by
  simp [bracketed, Cursor.withExprLevel]

@[simp]
theorem yields_inHeader {p : Parser α} :
    Yields (inHeader p) c post ↔
      Yields p (c.withExprLevel (-1)) fun a c' => post a (c'.withExprLevel c.exprLevel) := by
  simp [inHeader, Cursor.withExprLevel]

/-- Nodes put on the bench one after the other. -/
theorem yields_mapM_makeField {fs : List Field} {post : List Field → Cursor → Prop}
    (h : ∀ w, w.exprs = c.bench.exprs → post fs (c.withBench w)) :
    Yields (fs.mapM makeField) c post := by
  induction fs generalizing c post with
  | nil => exact yields_pure.mpr (h c.bench rfl)
  | cons f fs ih =>
      simp only [List.mapM_cons, yields_bind, yields_makeField]
      exact ih fun w hw => yields_pure.mpr (h w hw)

theorem yields_forM_makeExpr {xs : List Expr} {post : Unit → Cursor → Prop}
    (h : ∀ w, w.exprs.toList = c.bench.exprs.toList ++ xs → post () (c.withBench w)) :
    Yields (xs.forM fun x => discard (makeExpr x)) c post := by
  induction xs generalizing c with
  | nil => exact yields_pure.mpr (h c.bench (List.append_nil _).symm)
  | cons x xs ih =>
      simp only [List.forM, yields_bind, yields_discard, yields_makeExpr]
      refine ih fun w hw => h w ?_
      simpa [Cursor.withBench, Workbench.addExpr] using hw

/-! ## Repetition -/

/-- The items of a list after a round, given those before it. -/
def Round.items (before : List α) : Round α → List α
  | .done => before
  | .last item | .more item => before ++ [item]

/-- Whether a round asks for another one. -/
def Round.goesOn : Round α → Bool
  | .more _ => true
  | _ => false

/--
Rounds that keep `I` of the items so far, and satisfy `post` when they stop,
satisfy `post` in the end.
-/
theorem yields_collect {round : Parser (Round α)} {I post : List α → Cursor → Prop}
    (hstart : I [] c)
    (hround : ∀ items c, I items c → Yields round c fun r c' =>
      (r.goesOn → I (r.items items) c') ∧ (r.goesOn = false → post (r.items items) c')) :
    Yields (collect round) c post := by
  -- The items stand in reverse while they are collected.
  suffices hfor : ∀ clock items c, I items.reverse c →
      Yields (collectFor round clock items) c post by
    simpa [collect] using hfor c.rest [] c hstart
  intro clock
  induction clock with
  | nil =>
    intro items c hinv
    rw [collectFor, yields_bind]
    refine (hround _ c hinv).mono fun r c' hr => ?_
    cases r <;> simp_all [Round.goesOn, Round.items]
  | cons l clock ih =>
    intro items c hinv
    rw [collectFor, yields_bind]
    refine (hround _ c hinv).mono fun r c' hr => ?_
    cases r with
    | done | last => simp_all [Round.goesOn, Round.items]
    | more item => exact ih _ c' (by simpa [Round.goesOn, Round.items] using hr)

/-- The item that a round read. -/
def Round.item? : Round α → Option α
  | .done => none
  | .last item | .more item => some item

/-- Rounds that stay in `I` and read items in `Q` make a list of items in `Q`. -/
theorem yields_collect_all {round : Parser (Round α)} {I : Cursor → Prop} {Q : α → Prop}
    (hstart : I c)
    (hround : ∀ c, I c → Yields round c fun r c' => I c' ∧ ∀ a ∈ r.item?, Q a) :
    Yields (collect round) c fun items c' => I c' ∧ ∀ a ∈ items, Q a := by
  refine yields_collect (I := fun items c' => I c' ∧ ∀ a ∈ items, Q a) ⟨hstart, by simp⟩
    fun items c hgot => ?_
  obtain ⟨hI, hQ⟩ := hgot
  refine (hround c hI).mono fun r c' ⟨hI', hr⟩ => ?_
  have hitems : ∀ a ∈ r.items items, Q a := by
    intro a ha
    cases r with
    | done => exact hQ a ha
    | last item | more item =>
        rcases List.mem_append.mp ha with ha | ha
        · exact hQ a ha
        · exact hr a (by simpa [Round.item?] using List.mem_singleton.mp ha ▸ rfl)
  exact ⟨fun _ => ⟨hI', hitems⟩, fun _ => ⟨hI', hitems⟩⟩

section Lists

variable {item : Parser α} {I : Cursor → Prop} {Q : α → Prop} (hadvance : ∀ c, I c → I c.advance)
  (hitem : ∀ c, I c → Yields item c fun a c' => I c' ∧ Q a)
include hadvance hitem

theorem yields_commaRound (hc : I c) :
    Yields (commaRound item) c fun r c' => I c' ∧ ∀ a ∈ r.item?, Q a := by
  simp only [commaRound, yields_bind]
  refine (hitem c hc).mono fun a c' ⟨hI, hQ⟩ => ?_
  simp [Round.item?, hQ, hI, hadvance c' hI]

theorem yields_commaList (hc : I c) :
    Yields (commaList item) c fun items c' => I c' ∧ ∀ a ∈ items, Q a :=
  yields_collect_all hc fun _ => yields_commaRound hadvance hitem

theorem yields_commaListUntil {close : Mark} (hc : I c) :
    Yields (commaListUntil close item) c fun items c' => I c' ∧ ∀ a ∈ items, Q a := by
  refine yields_collect_all hc fun c hc => ?_
  simp only [yields_bind, yields_peek]
  split
  · simp [Round.item?, hc]
  · rw [yields_ite]
    exact ⟨fun _ => by simp [Round.item?, hc], fun _ => yields_commaRound hadvance hitem hc⟩

theorem yields_moreUntil {close : Mark} (hc : I c) :
    Yields (moreUntil close item) c fun items c' => I c' ∧ ∀ a ∈ items, Q a := by
  refine yields_collect_all hc fun c hc => ?_
  simp [Round.item?, hc]
  exact fun _ => ⟨fun _ => hadvance c hc, fun _ => hitem _ (hadvance c hc)⟩

theorem yields_endedListUntil {close : Mark} (hc : I c) :
    Yields (endedListUntil close item) c fun items c' => I c' ∧ ∀ a ∈ items, Q a := by
  refine yields_collect_all hc fun c hc => ?_
  simp only [yields_bind, yields_peek]
  split
  · simp [Round.item?, hc]
  · rw [yields_ite]
    refine ⟨fun _ => by simp [Round.item?, hc], fun _ => ?_⟩
    rw [yields_bind]
    refine (hitem c hc).mono fun a c' ⟨hI, hQ⟩ => ?_
    rw [yields_bind, yields_expectEnd]
    simp [Round.item?, hQ, hI, hadvance c' hI]

end Lists

/-- Rounds that keep `I` of what was built so far, and satisfy `post` when one adds nothing. -/
theorem yields_extend_until {round : α → Parser (Option α)} {I post : α → Cursor → Prop} {a : α}
    (hstart : I a c)
    (hround : ∀ a c, I a c → Yields (round a) c fun b c' =>
      (b = none → post a c') ∧ ∀ x, b = some x → I x c') :
    Yields (extend round a) c post := by
  suffices hfor : ∀ clock a c, I a c → Yields (extendFor round clock a) c post by
    simpa [extend] using hfor c.rest a c hstart
  intro clock
  induction clock with
  | nil =>
    intro a c hinv
    rw [extendFor, yields_bind]
    refine (hround a c hinv).mono fun b c' hb => ?_
    cases b <;> simp_all
  | cons l clock ih =>
    intro a c hinv
    rw [extendFor, yields_bind]
    refine (hround a c hinv).mono fun b c' hb => ?_
    cases b with
    | none => simpa using hb
    | some b => exact ih b c' (hb.2 b rfl)

/-- Rounds that keep `I` of what was built so far keep it to the end. -/
theorem yields_extend {round : α → Parser (Option α)} {I : α → Cursor → Prop} {a : α}
    (hstart : I a c)
    (hround : ∀ a c, I a c → Yields (round a) c fun b c' => I (b.getD a) c') :
    Yields (extend round a) c I :=
  yields_extend_until hstart fun a c hinv => (hround a c hinv).mono fun b c' hb =>
    ⟨fun hnone => by simpa [hnone] using hb, fun x hsome => by simpa [hsome] using hb⟩

/-! ## Headers -/

theorem yields_oneExpr {xs : List Expr} {post : Expr → Cursor → Prop} :
    Yields (oneExpr xs) c post ↔ ∀ x, xs = [x] → post x c := by
  unfold oneExpr
  split <;> simp_all

theorem yields_headerExpr_iff {part : HeaderPart} {s : Stmt} {post : Expr → Cursor → Prop} :
    Yields (headerExpr part s) c post ↔ ∀ span x, s = .expr span x → post x c := by
  unfold headerExpr
  split <;> simp_all

theorem yields_checkPost {post : Option Stmt} {after : Unit → Cursor → Prop} (h : after () c) :
    Yields (checkPost post) c after := by
  unfold checkPost
  split
  · simp
  · exact yields_pure.mpr h

theorem yields_loopCondition_iff {s : Option Stmt} {post : Option Expr → Cursor → Prop} :
    Yields (loopCondition s) c post ↔
      (s = none → post none c) ∧ ∀ span x, s = some (.expr span x) → post (some x) c := by
  cases s with
  | none => simp [loopCondition]
  | some s => simp [loopCondition, yields_headerExpr_iff]

/-! ## Parameter lists -/

/-- The entries of a named list make these fields, if some names wait for their type already. -/
inductive Grouped : List Name → List ParamEntry → List Field → Prop where
  | nil : Grouped [] [] []
  | bare {waiting : List Name} {name : Name} {entries : List ParamEntry} {fields : List Field}
    (h : Grouped (waiting ++ [name]) entries fields) :
    Grouped waiting (.bare name :: entries) fields
  | typed {waiting : List Name} {name : Name} {type : Expr} {span : Span}
    {entries : List ParamEntry} {fields : List Field} (h : Grouped [] entries fields) :
    Grouped waiting (.typed (some name) type span :: entries)
      (⟨⟨waiting.head?.elim span.start (·.pos.start), span.stop⟩, waiting ++ [name], type, none⟩
        :: fields)

theorem grouped_of_groupNamed {waiting : List Name} {last : Span} {entries : List ParamEntry}
    {fields : List Field} (h : groupNamed waiting last entries = .ok fields) :
    Grouped waiting entries fields := by
  fun_induction groupNamed waiting last entries generalizing fields with
  | case1 waiting last hwaiting =>
      cases h
      rw [List.isEmpty_iff.mp hwaiting]
      exact .nil
  | case2 | case4 => cases h
  | case3 _ _ _ _ ih => exact .bare (ih h)
  | case5 _ _ _ _ span entries =>
      rename_i ih
      cases hrest : groupNamed [] span entries with
      | error e => rw [hrest] at h; cases h
      | ok rest =>
          rw [hrest] at h
          cases h
          exact .typed (ih hrest)

/-- The type of a field of a parameter list is that of one of the entries. -/
theorem Grouped.type {waiting : List Name} {entries : List ParamEntry} {fields : List Field}
    (h : Grouped waiting entries fields) :
    ∀ f ∈ fields, ∃ e ∈ entries, f.type = e.unnamedField.type := by
  induction h with
  | nil => simp
  | bare _ ih => exact fun f hf => (ih f hf).imp fun _ => .imp_left (.tail _)
  | typed _ ih =>
      refine List.forall_mem_cons.mpr ⟨⟨_, .head _, rfl⟩, fun f hf => ?_⟩
      exact (ih f hf).imp fun _ => .imp_left (.tail _)

theorem groupParams_type {entries : List ParamEntry} {fields : List Field}
    (h : groupParams entries = .ok fields) :
    ∀ f ∈ fields, ∃ e ∈ entries, f.type = e.unnamedField.type := by
  unfold groupParams at h
  split at h
  · exact (grouped_of_groupNamed h).type
  · cases h
    intro f hf
    obtain ⟨e, he, rfl⟩ := List.mem_map.mp hf
    exact ⟨e, he, rfl⟩

/-! ## Whole sources -/

/-- What a reader yields at the start of a source holds of an accepted one and its nodes. -/
theorem Yields.read_bench {p : Parser α} {src : String} {f : Fragment α}
    (h : Yields p (Cursor.start (tokenize src) src.utf8ByteSize) post)
    (hf : Fragment.read p src = .ok f) : ∃ c, c.bench = f.bench ∧ post f.root c := by
  unfold Fragment.read at hf
  cases hrun : p (Cursor.start (tokenize src) src.utf8ByteSize) with
  | ok root c =>
      simp only [hrun] at hf
      split at hf
      · cases hf
        exact ⟨c, rfl, h root c hrun⟩
      · cases hf
  | error e c => simp only [hrun] at hf; cases hf

/-- What a reader yields at the start of a source holds of the root of an accepted one. -/
theorem Yields.read {p : Parser α} {src : String} {f : Fragment α}
    (h : Yields p (Cursor.start (tokenize src) src.utf8ByteSize) post)
    (hf : Fragment.read p src = .ok f) : ∃ c, post f.root c := by
  obtain ⟨c, _, hpost⟩ := h.read_bench hf
  exact ⟨c, hpost⟩

end GoGloss.Grammar
