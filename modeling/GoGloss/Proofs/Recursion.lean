import GoGloss.Proofs.Recursion.Statements

/-!
# Reading ends

Two things could keep a reader from ending: a repetition that goes round without
getting on, and productions that call one another without end. The first does not
happen because a round that asks for another one has taken a token, and the second
because no more than `maxDepth` levels can be entered and a level has room for few
calls. Both are seen by watching: a reading whose calls are counted and whose rounds
and cursors are checked comes to what the reading comes to.
-/

namespace GoGloss.Grammar

variable {α : Type}

/-- The most calls of productions that are at work at the same time. -/
def maxCalls : Nat := 16 * (maxDepth + 1)

/-- The cursor that an outcome leaves. -/
def cursorAfter : EStateM.Result SyntaxError Cursor α → Cursor
  | .ok _ c | .error _ c => c

/-- Whether an outcome is the refusal of a call, a cursor or a round. -/
def isRefused : EStateM.Result SyntaxError Cursor α → Bool
  | .ok _ _ => false
  | .error e _ => e.fault = .stalled

/-- A reading that is counted and watched comes to what the reading comes to, unrefused. -/
structure Unrefused (ok : Cursor → Prop) [DecidablePred ok] (budget : Nat) (p : Production α)
    (reading : Parser α) (c : Cursor) : Prop where
  same : p.run ok budget c = reading c
  unrefused : isRefused (reading c) = false
  ok_after : ok (cursorAfter (reading c))

/-- On a whole source the budget covers all levels and the calls before the first of them. -/
theorem Production.unrefused {ok : Cursor → Prop} [DecidablePred ok] {ls : List Lexeme}
    (hok : ∀ c : Cursor, c.rest <:+ ls → c.depth ≤ maxDepth → ok c) (p : Production α)
    (hrank : p.rank ≤ 16) (size extra : Nat) :
    Unrefused ok (maxCalls + extra) p (p.reader (inner maxDepth)) (Cursor.start ls size) := by
  have hfares : (Cursor.start ls size).Fares ls (maxCalls + extra) maxDepth p.rank := by
    refine ⟨List.suffix_refl _, Nat.zero_le _, Nat.le_add_left _ _, ?_⟩
    rw [maxCalls]
    change 16 * (maxDepth - 0) + p.rank ≤ _
    omega
  obtain ⟨hsame, hleaves⟩ := run_follows hok (maxCalls + extra) p maxDepth _ hfares
  refine ⟨hsame, ?_, ?_⟩
  · cases hrun : p.reader (inner maxDepth) (Cursor.start ls size) with
    | ok a c' => rfl
    | error e c' =>
        rw [hrun] at hleaves
        exact decide_eq_false hleaves.2.2
  · cases hrun : p.reader (inner maxDepth) (Cursor.start ls size) with
    | ok a c' =>
        rw [hrun] at hleaves
        exact hok c' hleaves.1 hleaves.2.2.2
    | error e c' =>
        rw [hrun] at hleaves
        exact hok c' hleaves.1 hleaves.2.1

/--
**Reading ends.** On any lexemes, well formed or not, the three readers of whole
sources come to an outcome in which nothing is refused: no call of a production finds
the budget spent, at every call and every return the cursor stands among the lexemes
and not past their end, and every round of every repetition that goes on to another
one has taken a token.
-/
theorem reading_ends (ls : List Lexeme) (size extra : Nat) :
    Unrefused (fun c => c.rest <:+ ls) (maxCalls + extra) .wholeExpr wholeExpr
      (Cursor.start ls size) ∧
    Unrefused (fun c => c.rest <:+ ls) (maxCalls + extra) .wholeDecl wholeDecl
      (Cursor.start ls size) ∧
    Unrefused (fun c => c.rest <:+ ls) (maxCalls + extra) .wholeStmt wholeStmt
      (Cursor.start ls size) :=
  have hok : ∀ c : Cursor, c.rest <:+ ls → c.depth ≤ maxDepth → c.rest <:+ ls :=
    fun _ hstands _ => hstands
  ⟨Production.unrefused hok .wholeExpr (by decide) size extra,
    Production.unrefused hok .wholeDecl (by decide) size extra,
    Production.unrefused hok .wholeStmt (by decide) size extra⟩

/-- What is nested comes back to the depth it was called at, with a result or a fault. -/
theorem depth_nested (p : Parser α) (c : Cursor) :
    (cursorAfter (nested p c)).depth = c.depth := by
  change (cursorAfter (leavingDepth c.depth (enter >>= fun _ => p) c)).depth = c.depth
  unfold leavingDepth
  cases (enter >>= fun _ => p) c <;> rfl

/--
**The nesting limit bounds the recursion.** On any lexemes the depth is at most
`maxDepth` at every call and every return of a production, what is nested leaves the
depth as it was, and a budget of `maxCalls` calls at the same time is enough: with it,
as with any larger one, the reading comes to the same outcome and no call is refused.
-/
theorem recursion_bounded (ls : List Lexeme) (size extra : Nat) :
    Unrefused (fun c => c.depth ≤ maxDepth) (maxCalls + extra) .wholeExpr wholeExpr
      (Cursor.start ls size) ∧
    Unrefused (fun c => c.depth ≤ maxDepth) (maxCalls + extra) .wholeDecl wholeDecl
      (Cursor.start ls size) ∧
    Unrefused (fun c => c.depth ≤ maxDepth) (maxCalls + extra) .wholeStmt wholeStmt
      (Cursor.start ls size) ∧
    ∀ {β : Type} (p : Parser β) (c : Cursor), (cursorAfter (nested p c)).depth = c.depth :=
  have hok : ∀ c : Cursor, c.rest <:+ ls → c.depth ≤ maxDepth → c.depth ≤ maxDepth :=
    fun _ _ hdepth => hdepth
  ⟨Production.unrefused hok .wholeExpr (by decide) size extra,
    Production.unrefused hok .wholeDecl (by decide) size extra,
    Production.unrefused hok .wholeStmt (by decide) size extra, depth_nested⟩

/-- A name is read by six calls inside one another, and five are not enough. -/
example : [5, 6].map (fun budget => isRefused (Production.wholeExpr.run
    (fun c => c.depth ≤ maxDepth) budget (Cursor.start (tokenize "x") 1))) = [true, false] := by
  decide +kernel

end GoGloss.Grammar
