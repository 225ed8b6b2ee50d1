import GoGloss.Flat.Descent
import GoGloss.Proofs.Arena.Mirror

/-!
# Two readers that go together

The reader of arenas and the reader of trees are written production by production in
the same way. `Twin F p q R` says that the one production does what the other does:
started where arena and workbench match and with the parts `F` in hand, both stop
with the same fault, or both succeed, at the same place, with results in relation `R`
and the parts that go with them in hand instead of `F`. Whatever else was in hand
before is so afterwards.

There is a rule for every step a production takes. Most steps do not touch a node,
and are the same program for both readers.

Where both productions look at the token ahead, the proof splits on what the first
makes of it. What the second makes of any other token follows from what is ruled out
by then, so such a case starts with a simplification that may have nothing to do.
-/

namespace GoGloss.Grammar.Cursor

variable {β γ : Type}

/-- The cursor with the nodes kept in another way. -/
def keeping (c : Cursor β) (bench : γ) : Cursor γ :=
  ⟨c.rest, c.sourceEnd, c.lastStop, c.exprLevel, c.depth, bench⟩

end GoGloss.Grammar.Cursor

namespace GoGloss.Flat

open Grammar

variable {α β γ δ : Type}

/-- The outcomes of two readers, the first of which had the parts `H` in hand besides. -/
inductive Both (ls : List Lexeme) (H : List Part) (R : α → β → List Part → Prop) :
    EStateM.Result SyntaxError (Cursor Arena) α → EStateM.Result SyntaxError Cursor β → Prop where
  | ok {a : α} {b : β} {ps : List Part} {c : Cursor} {log : List Event} (hR : R a b ps)
    (hmatch : Match ls c log (H ++ ps)) : Both ls H R (.ok a (c.keeping (replay log))) (.ok b c)
  | error {e : SyntaxError} {c : Cursor Arena} {c' : Cursor} :
    Both ls H R (.error e c) (.error e c')

/-- The readers go together from a cursor on. -/
def Goes (c : Cursor) (F : List Part) (p : Builder α) (q : Parser β)
    (R : α → β → List Part → Prop) : Prop :=
  ∀ ls log H, Match ls c log (H ++ F) → Both ls H R (p (c.keeping (replay log))) (q c)

/-- The readers go together from any cursor on. -/
def Twin (F : List Part) (p : Builder α) (q : Parser β) (R : α → β → List Part → Prop) : Prop :=
  ∀ c, Goes c F p q R

/-- The results are the same, and no parts go with them. -/
def Same (a b : α) (ps : List Part) : Prop :=
  a = b ∧ ps = []

/-! ## Steps -/

section Steps

variable {R : α → β → List Part → Prop} {S : γ → δ → List Part → Prop} {F G : List Part}
  {p p' : Builder α} {q q' : Parser β}

theorem twin_pure {a : α} {b : β} (h : R a b F) : Twin F (pure a) (pure b) R :=
  fun _ _ _ _ hmatch => .ok h hmatch

theorem twin_same_pure (a : α) : Twin [] (pure a) (pure a) Same :=
  twin_pure ⟨rfl, rfl⟩

theorem Goes.bind {c : Cursor} {f : α → Builder γ} {g : β → Parser δ} (h : Goes c G p q R)
    (hf : ∀ a b ps, R a b ps → Twin (F ++ ps) (f a) (g b) S) :
    Goes c (F ++ G) (p >>= f) (q >>= g) S := by
  intro ls log H hmatch
  have hp := h ls log (H ++ F) (by rwa [List.append_assoc])
  change Both ls H S (EStateM.bind p f (c.keeping (replay log))) (EStateM.bind q g c)
  unfold EStateM.bind
  generalize p (c.keeping (replay log)) = r at hp
  generalize q c = r' at hp
  cases hp with
  | ok hR hmatch => exact hf _ _ _ hR _ _ _ _ (by rwa [List.append_assoc] at hmatch)
  | error => exact .error

/-- One reader after the other, with the parts `F` in hand meanwhile. -/
theorem Twin.bind {f : α → Builder γ} {g : β → Parser δ} (h : Twin G p q R)
    (hf : ∀ a b ps, R a b ps → Twin (F ++ ps) (f a) (g b) S) :
    Twin (F ++ G) (p >>= f) (q >>= g) S :=
  fun c => (h c).bind hf

/-- What is read first needs none of the parts in hand. -/
theorem Twin.after {f : α → Builder γ} {g : β → Parser δ} (h : Twin [] p q R)
    (hf : ∀ a b ps, R a b ps → Twin (F ++ ps) (f a) (g b) S) : Twin F (p >>= f) (q >>= g) S := by
  simpa using h.bind hf

section Node

variable {k : Kind} {p : Builder (NodeId k)} {q : Parser k.Tree} {f : NodeId k → Builder γ}
  {g : k.Tree → Parser δ}

/-- What comes first is a node made of parts in hand. -/
theorem Twin.made (h : Twin G p q One) (hf : ∀ i t, Twin (F ++ [.node i t]) (f i) (g t) S) :
    Twin (F ++ G) (p >>= f) (q >>= g) S :=
  h.bind fun i t ps (hps : ps = [.node i t]) => hps ▸ hf i t

/-- What is read first is a node. -/
theorem Twin.node (h : Twin [] p q One) (hf : ∀ i t, Twin (F ++ [.node i t]) (f i) (g t) S) :
    Twin F (p >>= f) (q >>= g) S :=
  h.after fun i t ps (hps : ps = [.node i t]) => hps ▸ hf i t

end Node

/-- What is read first is the same for both. -/
theorem Twin.same {p : Builder α} {q : Parser α} {f : α → Builder γ} {g : α → Parser δ}
    (h : Twin [] p q Same) (hf : ∀ a, Twin F (f a) (g a) S) : Twin F (p >>= f) (q >>= g) S := by
  refine h.after ?_
  rintro a _ _ ⟨rfl, rfl⟩
  simpa using hf a

theorem Twin.map {f : α → γ} {g : β → δ} (h : Twin F p q R)
    (hf : ∀ a b ps, R a b ps → S (f a) (g b) ps) : Twin F (f <$> p) (g <$> q) S := by
  rw [map_eq_pure_bind, map_eq_pure_bind]
  exact h.bind (F := []) fun a b ps hR => twin_pure (hf a b ps hR)

theorem Twin.some (h : Twin F p q R) :
    Twin F (Option.some <$> p) (Option.some <$> q) (Maybe R) :=
  h.map fun _ _ _ => Maybe.some

theorem Twin.discard {p : Builder α} {q : Parser α} (h : Twin [] p q Same) :
    Twin [] (Functor.discard p) (Functor.discard q) Same :=
  h.map fun _ _ _ hsame => ⟨rfl, hsame.2⟩

theorem Twin.ite {b : Prop} [Decidable b] (h : Twin F p q R) (h' : Twin F p' q' R) :
    Twin F (if b then p else p') (if b then q else q') R := by
  split
  · exact h
  · exact h'

/-- Two ways to get at something that the same steps go on with. -/
theorem Twin.join {b : Prop} [Decidable b] {f : α → Builder γ} {g : β → Parser δ}
    (h : Twin [] p q R) (h' : Twin [] p' q' R)
    (hf : ∀ a b ps, R a b ps → Twin (F ++ ps) (f a) (g b) S) :
    Twin F (if b then p >>= f else p' >>= f) (if b then q >>= g else q' >>= g) S :=
  .ite (h.after hf) (h'.after hf)

theorem twin_failAt {span : Span} {fault : Fault} :
    Twin F (failAt span fault) (failAt span fault) R :=
  fun _ _ _ _ _ => .error

theorem twin_failHere {fault : Fault} : Twin F (failHere fault) (failHere fault) R :=
  fun _ _ _ _ _ => .error

theorem twin_failExpected {wanted : Wanted} :
    Twin F (failExpected wanted) (failExpected wanted) R :=
  fun _ _ _ _ _ => .error

/-- Parts may be exchanged for others that are as good. -/
theorem Twin.exchange (h : Twin G p q R)
    (hmatch : ∀ {ls c log H}, Match ls c log (H ++ F) → Match ls c log (H ++ G)) :
    Twin F p q R :=
  fun c ls log H h' => h c ls log H (hmatch h')

/-- The order of parts does not matter. -/
theorem Twin.perm (h : Twin G p q R) (hperm : F.Perm G) : Twin F p q R := by
  refine h.exchange fun {ls c log H} hmatch => hmatch.exchange (fun x hx => ?_) ?_
  · exact hmatch.parts x ((hperm.append_left H).symm.subset hx)
  · exact ((hperm.append_left H).flatMap_right _).symm

/-- What comes first needs parts that are in the midst of those in hand. -/
theorem Twin.within {E : List Part} {f : α → Builder γ} {g : β → Parser δ} (h : Twin E p q R)
    (hf : ∀ a b ps, R a b ps → Twin (F ++ ps ++ G) (f a) (g b) S) :
    Twin (F ++ E ++ G) (p >>= f) (q >>= g) S := by
  have hswap : ∀ ps : List Part, (F ++ ps ++ G).Perm (F ++ G ++ ps) := by
    intro ps
    rw [List.append_assoc, List.append_assoc]
    exact List.perm_append_comm.append_left F
  refine Twin.perm (h.bind (F := F ++ G) fun a b ps hR => ?_) (hswap E)
  exact (hf a b ps hR).perm (hswap ps).symm

theorem Twin.of_eq (h : Twin G p q R) (heq : F = G) : Twin F p q R :=
  heq ▸ h

/-- The second reader in another form, as where a match on a token comes to its last case. -/
theorem Twin.reads {q' : Parser β} (h : Twin F p q R) (heq : q = q') : Twin F p q' R :=
  heq ▸ h

end Steps

/-! ## Looking ahead and taking tokens -/

theorem twin_peek : Twin [] peek peek Same :=
  fun _ _ _ _ hmatch => .ok ⟨rfl, rfl⟩ hmatch

theorem twin_peekSecond : Twin [] peekSecond peekSecond Same :=
  fun _ _ _ _ hmatch => .ok ⟨rfl, rfl⟩ hmatch

theorem twin_here : Twin [] here here Same :=
  fun _ _ _ _ hmatch => .ok ⟨rfl, rfl⟩ hmatch

theorem twin_spanFrom (start : Nat) : Twin [] (spanFrom start) (spanFrom start) Same :=
  fun _ _ _ _ hmatch => .ok ⟨rfl, rfl⟩ hmatch

theorem twin_take : Twin [] take take Same := by
  intro c ls log H hmatch
  have hadvance : Match ls c.advance log (H ++ []) := hmatch.move (List.tail_suffix _) rfl
  exact .ok ⟨rfl, rfl⟩ hadvance

theorem twin_isAt (t : Token) : Twin [] (isAt t) (isAt t) Same :=
  twin_peek.same fun _ => twin_same_pure _

theorem twin_eat (t : Token) : Twin [] (eat t) (eat t) Same :=
  (twin_isAt t).same fun _ => .ite (twin_take.same fun _ => twin_same_pure _) (twin_same_pure _)

theorem twin_eats (t : Token) : Twin [] (eats t) (eats t) Same :=
  (twin_eat t).same fun _ => twin_same_pure _

theorem twin_expect (t : Token) : Twin [] (expect t) (expect t) Same := by
  refine (twin_eat t).same fun span => ?_
  cases span with
  | none => exact twin_failExpected
  | some span => exact twin_same_pure span

theorem twin_expectEnd : Twin [] expectEnd expectEnd Same := by
  refine twin_peek.same fun t => ?_
  split
  · exact twin_take.discard
  · exact twin_same_pure _
  · exact twin_same_pure _
  · exact twin_same_pure _
  · exact twin_failExpected

/-- What goes on from a look at the token ahead may know which it is. -/
theorem twin_peek_ahead {F : List Part} {R : α → β → List Part → Prop} {f : Token → Builder α}
    {g : Token → Parser β}
    (h : ∀ t c, c.head.token = t → Goes c F (f t) (g t) R) : Twin F (peek >>= f) (peek >>= g) R :=
  fun c => h c.head.token c rfl

/-- A literal that is ahead, taken as it is. -/
theorem goes_take_literal {c : Cursor} {kind : LiteralKind} {text : String}
    (hc : c.head.token = .literal kind text) :
    Goes c [] take take fun a b ps => a = b ∧ ps = [.literal ⟨kind, a, text⟩] := by
  intro ls log H hmatch
  have hlexeme : Written ls (.literal kind text) c.head.span := by
    cases hrest : c.rest with
    | nil => simp [Cursor.head, hrest] at hc
    | cons l rest =>
        have hhead : c.head = l := by simp [Cursor.head, hrest]
        exact ⟨l, hmatch.rest.subset (by simp [hrest]), hhead ▸ hc, hhead ▸ rfl⟩
  have hadvance : Match ls c.advance log (H ++ [.literal ⟨kind, c.head.span, text⟩]) := by
    refine (hmatch.exchange ?_ ?_).move (List.tail_suffix _) rfl
    · refine List.forall_mem_append.mpr ⟨(List.forall_mem_append.mp hmatch.parts).1, ?_⟩
      exact List.forall_mem_singleton.mpr hlexeme
    · simp [Part.held, Part.dropped, Part.taken]
  exact .ok ⟨rfl, rfl⟩ hadvance

/-- A literal and its text, if there is one. -/
def Tagged (a b : Option Literal) (ps : List Part) : Prop :=
  a = b ∧ ps = b.toList.map .literal

theorem twin_textLiteral? : Twin [] textLiteral? textLiteral? Tagged := by
  refine twin_peek_ahead fun t c hc => ?_
  split
  · split
    · refine Goes.bind (F := []) (goes_take_literal hc) ?_
      rintro span _ _ ⟨rfl, rfl⟩
      exact twin_pure ⟨rfl, rfl⟩
    · exact twin_pure ⟨rfl, rfl⟩ c
  · exact twin_pure ⟨rfl, rfl⟩ c

theorem twin_ident : Twin [] ident name Named := by
  refine twin_peek_ahead fun t c hc => ?_
  split
  · intro ls log H hmatch
    rw [List.append_nil] at hmatch
    exact .ok ⟨rfl, rfl⟩ (hmatch.name hc)
  · exact twin_failExpected.reads (by simp only) c

/-! ## Making nodes and lists -/

section Making

variable {F G : List Part}

theorem twin_make {k : Kind} {n : k.Node} {t : k.Tree} {make : Parser k.Tree}
    (hmake : ∀ c, make c = .ok t { c with bench := addTree c.bench t }) (h : k.Of n t F) :
    Twin F (alloc n (k.span t)) make One := by
  intro c ls log H hmatch
  rw [hmake]
  exact .ok rfl (hmatch.alloc h)

theorem twin_makeExpr {n : ExprNode} {x : Expr} (h : ExprOf n x F) :
    Twin F (allocExpr n x.span) (makeExpr x) One :=
  twin_make (k := .expr) (fun _ => rfl) h

theorem twin_makeStmt {n : StmtNode} {s : Stmt} (h : StmtOf n s F) :
    Twin F (allocStmt n s.span) (makeStmt s) One :=
  twin_make (k := .stmt) (fun _ => rfl) h

theorem twin_makeDecl {n : DeclNode} {d : Decl} (h : DeclOf n d F) :
    Twin F (allocDecl n d.span) (makeDecl d) One :=
  twin_make (k := .decl) (fun _ => rfl) h

theorem twin_makeField {n : FieldNode} {f : Field} (h : FieldOf n f F) :
    Twin F (allocField n f.span) (makeField f) One :=
  twin_make (k := .field) (fun _ => rfl) h

variable {s : Shelf} {R : s.Item → β → List Part → Prop} {items : List s.Item} {bs : List β}
  {qs : List Part}

/-- A list goes on its shelf, which the reader of trees does not see. -/
theorem twin_shelve {f : ListRef s → Builder γ} {q : Parser δ} {S : γ → δ → List Part → Prop}
    (h : Each R items bs qs)
    (hR : ∀ {ls log w item b ps}, R item b ps → Fits ls log w (s.slots item) [] ps)
    (hf : ∀ r ps, Listed R r bs ps → Twin (F ++ ps ++ G) (f r) q S) :
    Twin (F ++ qs ++ G) (shelve items >>= f) q S := by
  intro c ls log H hmatch
  have hshelve := Match.shelve (F := H ++ F) (G := G) (by simpa using hmatch) h hR
  exact hf _ _ ⟨items, qs, h, rfl⟩ c ls _ H (by simpa using hshelve)

theorem twin_shelve_last {f : ListRef s → Builder γ} {q : Parser δ}
    {S : γ → δ → List Part → Prop} (h : Each R items bs qs)
    (hR : ∀ {ls log w item b ps}, R item b ps → Fits ls log w (s.slots item) [] ps)
    (hf : ∀ r ps, Listed R r bs ps → Twin (F ++ ps) (f r) q S) :
    Twin (F ++ qs) (shelve items >>= f) q S := by
  have hnil := twin_shelve (F := F) (G := []) (f := f) (q := q) (S := S) h hR
    fun r ps hps => by simpa using hf r ps hps
  simpa using hnil

theorem twin_shelve_pure (h : Each R items bs qs)
    (hR : ∀ {ls log w item b ps}, R item b ps → Fits ls log w (s.slots item) [] ps) :
    Twin qs (shelve items) (pure bs) (Listed R) := by
  have hpure := twin_shelve_last (F := []) (f := pure) (q := pure bs) (S := Listed R) h hR
    fun r ps hps => twin_pure hps
  simpa using hpure

/-- What is read goes on its shelf at once. -/
theorem Twin.shelved {p : Builder (List s.Item)} {q : Parser (List β)} (h : Twin F p q (Each R))
    (hR : ∀ {ls log w item b ps}, R item b ps → Fits ls log w (s.slots item) [] ps) :
    Twin F (p >>= shelve) q (Listed R) := by
  rw [← bind_pure q]
  exact h.bind (F := []) fun _ _ _ hitems => twin_shelve_pure hitems hR

/-- The empty list is always in hand. -/
theorem Twin.empty {p : Builder γ} {q : Parser δ} {S : γ → δ → List Part → Prop}
    (h : Twin (F ++ [.list (.empty : ListRef s) []] ++ G) p q S) : Twin (F ++ G) p q S := by
  refine h.exchange fun hmatch => hmatch.exchange ?_ ?_
  · intro x hx
    have hold := hmatch.parts x
    simp only [List.append_assoc, List.mem_append, List.mem_singleton] at hx hold
    rcases hx with hx | hx | rfl | hx
    · exact hold (.inl hx)
    · exact hold (.inr (.inl hx))
    · exact GivenOut.empty
    · exact hold (.inr (.inr hx))
  · simp [Part.held, Part.dropped, Part.taken]

theorem listed_empty : Listed R .empty [] [.list (.empty : ListRef s) []] :=
  ⟨[], [], .nil, rfl⟩

end Making

/-- The arena so far may be looked at, and parts exchanged for what is seen there. -/
theorem twin_arena {F : List Part} {f : Arena → Builder α} {q : Parser β}
    {R : α → β → List Part → Prop}
    (h : ∀ ls c log H, Match ls c log (H ++ F) → ∃ G, Match ls c log (H ++ G) ∧
      Twin G (f (replay log)) q R) : Twin F (arena >>= f) q R := by
  intro c ls log H hmatch
  obtain ⟨G, hmatch, hf⟩ := h ls c log H hmatch
  exact hf c ls log H hmatch

/-- The token ahead is looked at together with the arena. -/
theorem twin_arena_peek {F : List Part} {f : Arena → Token → Builder α} {g : Token → Parser β}
    {R : α → β → List Part → Prop}
    (h : ∀ ls c log H, Match ls c log (H ++ F) → ∀ t, ∃ G, Match ls c log (H ++ G) ∧
      Twin G (f (replay log) t) (g t) R) :
    Twin F (arena >>= fun a => peek >>= f a) (peek >>= g) R := by
  intro c ls log H hmatch
  obtain ⟨G, hmatch, hf⟩ := h ls c log H hmatch c.head.token
  exact hf c ls log H hmatch

/-! ## Nesting -/

section Nesting

variable {R : α → β → List Part → Prop} {F : List Part} {p : Builder α} {q : Parser β}

theorem twin_enter : Twin [] enter enter Same := by
  intro c ls log H hmatch
  have hrun : ∀ {β : Type} (c : Cursor β), enter c = if maxDepth ≤ c.depth
      then .error ⟨.tooDeep, c.head.span⟩ c else .ok () { c with depth := c.depth + 1 } := by
    intro β c
    change (if maxDepth ≤ c.depth then failHere .tooDeep else set _ : Reader β Unit) c = _
    split <;> rfl
  rw [hrun, hrun]
  by_cases hc : maxDepth ≤ c.depth
  · have hover : maxDepth ≤ (c.keeping (replay log)).depth := hc
    rw [if_pos hc, if_pos hover]
    exact .error
  · have hover : ¬maxDepth ≤ (c.keeping (replay log)).depth := hc
    rw [if_neg hc, if_neg hover]
    have hdeeper : Match ls { c with depth := c.depth + 1 } log (H ++ []) :=
      hmatch.move (List.suffix_refl _) rfl
    exact .ok ⟨rfl, rfl⟩ hdeeper

theorem Twin.nested (h : Twin F p q R) : Twin F (nested p) (nested q) R := by
  intro c ls log H hmatch
  have hp := (twin_enter.same fun _ => h) c ls log H hmatch
  change Both ls H R (leavingDepth c.depth (enter >>= fun _ => p) (c.keeping (replay log)))
    (leavingDepth c.depth (enter >>= fun _ => q) c)
  unfold leavingDepth
  generalize (enter >>= fun _ => p) (c.keeping (replay log)) = r at hp
  generalize (enter >>= fun _ => q) c = r' at hp
  cases hp with
  | @ok a b ps c' log' hR hmatch =>
      have hback : Match ls { c' with depth := c.depth } log' (H ++ ps) :=
        hmatch.move (List.suffix_refl _) rfl
      exact .ok hR hback
  | error => exact .error

theorem twin_modify_exprLevel (f : Int → Int) :
    Twin [] (modify fun c => { c with exprLevel := f c.exprLevel })
      (modify fun c => { c with exprLevel := f c.exprLevel }) Same := by
  intro c ls log H hmatch
  have hmove : Match ls { c with exprLevel := f c.exprLevel } log (H ++ []) :=
    hmatch.move (List.suffix_refl _) rfl
  exact .ok ⟨rfl, rfl⟩ hmove

theorem Twin.bracketed (h : Twin F p q R) : Twin F (bracketed p) (bracketed q) R := by
  refine (twin_modify_exprLevel (· + 1)).same fun _ => ?_
  refine h.bind (F := []) fun a b ps hR => ?_
  exact (twin_modify_exprLevel (· - 1)).same fun _ => twin_pure hR

theorem Twin.inHeader (h : Twin F p q R) : Twin F (inHeader p) (inHeader q) R := by
  intro c
  have hp : Twin F (do
      modify fun d => { d with exprLevel := -1 }
      p) (do
      modify fun d => { d with exprLevel := -1 }
      q) R := (twin_modify_exprLevel fun _ => -1).same fun _ => h
  exact (hp.bind (F := []) fun a b ps hR =>
    (twin_modify_exprLevel fun _ => c.exprLevel).same fun _ => twin_pure hR) c

end Nesting

/-! ## Repetition -/

/-- Rounds of reading whose items are in a relation. -/
inductive RoundOf (R : α → β → List Part → Prop) : Round α → Round β → List Part → Prop where
  | done : RoundOf R .done .done []
  | last {a : α} {b : β} {ps : List Part} (h : R a b ps) : RoundOf R (.last a) (.last b) ps
  | more {a : α} {b : β} {ps : List Part} (h : R a b ps) : RoundOf R (.more a) (.more b) ps

/-- A round that builds on something, with the parts `F` of it. -/
inductive Grown (R : α → β → List Part → Prop) (F : List Part) :
    Option α → Option β → List Part → Prop where
  | none : Grown R F none none F
  | some {a : α} {b : β} {ps : List Part} (h : R a b ps) : Grown R F (some a) (some b) ps

section Repetition

variable {R : α → β → List Part → Prop}

theorem Each.single {a : α} {b : β} {ps : List Part} (h : R a b ps) : Each R [a] [b] ps := by
  simpa using Each.cons h .nil

theorem Each.concat {as : List α} {bs : List β} {ps qs : List Part} {a : α} {b : β}
    (h : Each R as bs ps) (hR : R a b qs) : Each R (as ++ [a]) (bs ++ [b]) (ps ++ qs) := by
  induction h with
  | nil => simpa using Each.cons hR .nil
  | cons h _ ih => simpa using Each.cons h ih

theorem Twin.collect {round : Builder (Round α)} {round' : Parser (Round β)}
    (h : Twin [] round round' (RoundOf R)) :
    Twin [] (collect round) (collect round') (Each R) := by
  have hfor : ∀ (clock : List Lexeme) (as : List α) (bs : List β) (ps : List Part),
      Each R as.reverse bs.reverse ps →
      Twin ps (collectFor round clock as) (collectFor round' clock bs) (Each R) := by
    intro clock
    induction clock with
    | nil =>
        intro as bs ps hitems
        rw [collectFor, collectFor]
        refine h.after fun r r' qs hr => ?_
        cases hr with
        | done => simpa using twin_pure hitems
        | last hR => exact twin_pure (by simpa using hitems.concat hR)
        | more hR => exact twin_failHere
    | cons l clock ih =>
        intro as bs ps hitems
        rw [collectFor, collectFor]
        refine h.after fun r r' qs hr => ?_
        cases hr with
        | done => simpa using twin_pure hitems
        | last hR => exact twin_pure (by simpa using hitems.concat hR)
        | more hR => exact ih _ _ _ (by simpa using hitems.concat hR)
  exact fun c => hfor c.rest [] [] [] .nil c

theorem Twin.extend {round : α → Builder (Option α)} {round' : β → Parser (Option β)} {a : α}
    {b : β} {F : List Part} (hab : R a b F)
    (h : ∀ a b ps, R a b ps → Twin ps (round a) (round' b) (Grown R ps)) :
    Twin F (extend round a) (extend round' b) R := by
  have hfor : ∀ (clock : List Lexeme) (a : α) (b : β) (ps : List Part), R a b ps →
      Twin ps (extendFor round clock a) (extendFor round' clock b) R := by
    intro clock
    induction clock with
    | nil =>
        intro a b ps hR
        rw [extendFor, extendFor]
        refine (h a b ps hR).bind (F := []) fun r r' qs hr => ?_
        cases hr with
        | none => exact twin_pure hR
        | some hR' => exact twin_failHere
    | cons l clock ih =>
        intro a b ps hR
        rw [extendFor, extendFor]
        refine (h a b ps hR).bind (F := []) fun r r' qs hr => ?_
        cases hr with
        | none => exact twin_pure hR
        | some hR' => exact ih _ _ _ hR'
  exact fun c => hfor c.rest a b F hab c

variable {item : Builder α} {item' : Parser β} (h : Twin [] item item' R)
include h

theorem Twin.commaRound : Twin [] (commaRound item) (commaRound item') (RoundOf R) :=
  h.after fun _ _ _ hR => (twin_eats _).same fun _ =>
    .ite (twin_pure (.more hR)) (twin_pure (.last hR))

theorem Twin.commaList : Twin [] (commaList item) (commaList item') (Each R) :=
  h.commaRound.collect

theorem Twin.commaListUntil {close : Mark} :
    Twin [] (commaListUntil close item) (commaListUntil close item') (Each R) := by
  refine Twin.collect (twin_peek.same fun t => ?_)
  split
  · exact twin_pure .done
  · exact .ite (twin_pure .done) h.commaRound

theorem Twin.moreUntil {close : Mark} :
    Twin [] (moreUntil close item) (moreUntil close item') (Each R) := by
  refine Twin.collect ((twin_eats _).same fun _ => .ite ?_ (twin_pure .done))
  refine (twin_isAt _).same fun _ => .ite (twin_pure .done) ?_
  exact h.after fun _ _ _ hR => twin_pure (.more hR)

theorem Twin.endedListUntil {close : Mark} :
    Twin [] (endedListUntil close item) (endedListUntil close item') (Each R) := by
  refine Twin.collect (twin_peek.same fun t => ?_)
  split
  · exact twin_pure .done
  · refine .ite (twin_pure .done) (h.after fun _ _ _ hR => twin_expectEnd.same fun _ => ?_)
    exact twin_pure (.more hR)

end Repetition

theorem twin_identList : Twin [] identList nameList (Each Named) :=
  twin_ident.commaList

end GoGloss.Flat
