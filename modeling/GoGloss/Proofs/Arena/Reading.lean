import GoGloss.Proofs.Arena.Statements

/-!
# Reading a source into an arena and into trees

The levels of productions tied together, and then whole sources. `read_together` is
what the walk through the grammar comes to: a source is accepted by both readers or
by none, with the same failure in that case; and if it is accepted, the arena mirrors
the workbench of trees, with the root as the one part in hand.
-/

namespace GoGloss.Flat

open Grammar

/-! ## Levels -/

theorem twins_none : Twins Inner.none Grammar.Inner.none where
  binary _ := twin_failHere
  unary := twin_failHere
  type? := twin_failHere
  literalValue _ _ := twin_failHere
  stmt := twin_failHere
  ifStmt := twin_failHere

theorem Twins.over {u : Inner} {v : Grammar.Inner} (h : Twins u v) : Twins u.over v.over where
  binary least := twin_binary h least
  unary := twin_unary h
  type? := twin_typeHere? h
  literalValue ht start := twin_literalValue h ht start
  stmt := twin_stmtHere h
  ifStmt := twin_ifStmt h

theorem twins_inner (n : Nat) : Twins (inner n) (Grammar.inner n) := by
  induction n with
  | zero => exact twins_none
  | succ n ih => exact ih.over

/-! ## Whole sources -/

theorem twin_skipSemicolons : Twin [] skipSemicolons skipSemicolons Same := by
  refine Twin.extend ⟨rfl, rfl⟩ ?_
  rintro _ _ _ ⟨rfl, rfl⟩
  refine (twin_eats _).same fun _ => .ite ?_ (twin_pure .none)
  exact twin_pure (.some ⟨rfl, rfl⟩)

theorem twin_wholeExpr : Twin [] wholeExpr Grammar.wholeExpr One := by
  refine (twin_expr (twins_inner maxDepth)).node fun i x c => ?_
  have hrest : Twin [.node i x] (do discard <| expect .eof; return i)
      (do discard <| expect .eof; return x) One :=
    (twin_expect _).discard.same fun _ => twin_pure rfl
  exact Twin.ite (b := c.head.isLineEnd) (twin_take.discard.same fun _ => hrest) hrest c

theorem twin_wholeDecl : Twin [] wholeDecl Grammar.wholeDecl One := by
  refine (twin_decl (twins_inner maxDepth)).node fun d e => ?_
  refine twin_expectEnd.same fun _ => twin_skipSemicolons.same fun _ => ?_
  exact (twin_expect _).discard.same fun _ => twin_pure rfl

theorem twin_wholeStmt : Twin [] wholeStmt Grammar.wholeStmt One := by
  refine (twin_stmt (twins_inner maxDepth)).node fun i s => ?_
  refine twin_expectEnd.same fun _ => twin_skipSemicolons.same fun _ => ?_
  exact (twin_expect _).discard.same fun _ => twin_pure rfl

variable {k : Kind}

/-- What was read from a source in the two ways, and the history of the arena. -/
structure Together (src : String) (f : Fragment k) (g : GoGloss.Fragment k.Tree)
    (log : List Event) : Prop where
  arena : f.arena = replay log
  mirror : Mirror (tokenize src) log g.bench
  root : StandsFor log g.bench f.root g.root
  books : Books log [f.root.any]

theorem read_together {p : Builder (NodeId k)} {q : Parser k.Tree} (h : Twin [] p q One)
    (src : String) :
    (∃ e, Fragment.read p src = .error e ∧ GoGloss.Fragment.read q src = .error e) ∨
      ∃ f g log, Fragment.read p src = .ok f ∧ GoGloss.Fragment.read q src = .ok g ∧
        Together src f g log := by
  let c := Cursor.start (tokenize src) src.utf8ByteSize
  have hstart : Match (tokenize src) c [] ([] ++ []) :=
    ⟨List.suffix_refl _, mirror_nil _, by simp, books_nil⟩
  have hrun := h c _ _ _ hstart
  change Both _ _ _ (p { rest := tokenize src, sourceEnd := src.utf8ByteSize, bench := {} })
    (q (Cursor.start (tokenize src) src.utf8ByteSize)) at hrun
  simp only [Fragment.read, GoGloss.Fragment.read]
  generalize p _ = r at hrun ⊢
  generalize q _ = r' at hrun ⊢
  cases hrun with
  | error => exact .inl ⟨_, rfl, rfl⟩
  | @ok i t ps c log hR hmatch =>
      obtain rfl := hR
      by_cases hflaws : (lexicalDiagnostics (tokenize src)).isEmpty
      · refine .inr ⟨⟨i, replay log⟩, ⟨t, c.bench⟩, log, if_pos hflaws, if_pos hflaws, rfl,
          hmatch.mirror, hmatch.parts (.node i t) List.mem_cons_self, hmatch.books⟩
      · exact .inl ⟨_, if_neg hflaws, if_neg hflaws⟩

/-- An arena that was read comes with trees of the same source. -/
theorem Together.of_read {p : Builder (NodeId k)} {q : Parser k.Tree} (h : Twin [] p q One)
    {src : String} {f : Fragment k} (hf : Fragment.read p src = .ok f) :
    ∃ g log, GoGloss.Fragment.read q src = .ok g ∧ Together src f g log := by
  rcases read_together h src with ⟨e, he, -⟩ | ⟨f', g, log, hf', hg, htogether⟩
  · cases hf.symm.trans he
  · obtain rfl : f' = f := Except.ok.inj (hf'.symm.trans hf)
    exact ⟨g, log, hg, htogether⟩

theorem read_error_iff {p : Builder (NodeId k)} {q : Parser k.Tree} (h : Twin [] p q One)
    (src : String) (e : Failure) :
    Fragment.read p src = .error e ↔ GoGloss.Fragment.read q src = .error e := by
  rcases read_together h src with ⟨e', hp, hq⟩ | ⟨f, g, log, hp, hq, -⟩
  · rw [hp, hq]
    exact ⟨fun he => congrArg _ (Except.error.inj he), fun he => congrArg _ (Except.error.inj he)⟩
  · rw [hp, hq]
    exact ⟨nofun, nofun⟩

/-- A source that is read as a tree is read into an arena. -/
theorem exists_of_isSome {p : Builder (NodeId k)} {q : Parser k.Tree} (h : Twin [] p q One)
    {src : String} (hok : (GoGloss.Fragment.read q src).toOption.isSome) :
    ∃ f, Fragment.read p src = .ok f := by
  rcases read_together h src with ⟨e, -, he⟩ | ⟨f, -, -, hf, -, -⟩
  · simp [he, Except.toOption] at hok
  · exact ⟨f, hf⟩

end GoGloss.Flat
