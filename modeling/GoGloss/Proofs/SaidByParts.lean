import GoGloss.Proofs.Interfaces

/-!
# Nodes are said by their parts

All of a sentence is written into one text, each node behind what is there already.
What a node adds does not depend on that text: it is what the node says on its own.

So a list that is written item by item, each behind the separator for its number,
comes out as the list of what its items say: commas, and one "and" before the last.
The lists of a declaration and of an assignment are such lists, and the noun in front
of one is plural if and only if the list that it counts has more than one item.
-/

namespace GoGloss

open Phrase

/-! ## Lists -/

namespace Phrase

theorem joinFrom_append (i total : Nat) (out more : String) (items : List String) :
    joinFrom i total (out ++ more) items = out ++ joinFrom i total more items := by
  induction items generalizing i more with
  | nil => rfl
  | cons item items ih => simp only [joinFrom, String.append_assoc, ih]

theorem joinFrom_length (out : String) (items : List String) :
    joinFrom 0 items.length out items = out ++ joinList items := by
  simpa [joinList] using joinFrom_append 0 items.length out "" items

/-- Behind the first item come commas up to the last, and "and" before it. -/
theorem joinFrom_concat (i : Nat) (out : String) (items : List String) (last : String) :
    joinFrom (i + 1) (i + 1 + items.length + 1) out (items ++ [last]) =
      ", ".intercalate (out :: items) ++ " and " ++ last := by
  induction items generalizing i out with
  | nil => simp [joinFrom, separator]
  | cons item items ih =>
      have hcomma : separator (i + 1) (i + 1 + (items.length + 1) + 1) = ", " := by
        simp [separator]
      have hcount : i + 1 + (items.length + 1) + 1 = i + 1 + 1 + items.length + 1 := by omega
      rw [List.cons_append, List.length_cons, joinFrom, hcomma, hcount, ih]
      simp [String.append_assoc]

theorem joinList_concat (item : String) (items : List String) (last : String) :
    joinList (item :: items ++ [last]) =
      ", ".intercalate (item :: items) ++ " and " ++ last := by
  have hcount : (item :: (items ++ [last])).length = 0 + 1 + items.length + 1 := by
    simp only [List.length_cons, List.length_append, List.length_nil]
    omega
  rw [List.cons_append, joinList, hcount, joinFrom, joinFrom_concat]
  simp [separator]

theorem noun_eq_plural_iff (word : String) (count : Nat) :
    noun word count = word ++ "s" ↔ 1 < count := by
  unfold noun
  split
  · simpa
  · have hne : word ≠ word ++ "s" := fun h => by simpa using congrArg String.length h
    simpa [hne] using Nat.le_of_not_lt ‹_›

theorem noun_eq_singular_iff (word : String) (count : Nat) :
    noun word count = word ↔ count ≤ 1 := by
  unfold noun
  split
  · have hne : word ++ "s" ≠ word := fun h => by simpa using congrArg String.length h
    simpa [hne]
  · simpa using Nat.le_of_not_lt ‹_›

end Phrase

/-- Expressions that are written with the separators of a list come out as the list. -/
theorem Expr.writeAll_separator (i total : Nat) (out : String) (xs : List Expr) :
    Expr.writeAll (fun i => separator i total) i out xs =
      joinFrom i total out (xs.map Expr.english) := by
  induction xs generalizing i out with
  | nil => rfl
  | cons x xs ih => rw [Expr.writeAll, ih, x.write_eq, List.map_cons, joinFrom]

theorem Expr.writeList_eq (out : String) (xs : List Expr) :
    Expr.writeList out xs = out ++ joinList (xs.map Expr.english) := by
  rw [Expr.writeList, Expr.writeAll_separator, ← joinFrom_length, List.length_map]

/-- Names that are written with the separators of a list come out as the list. -/
theorem Name.writeAll_eq_joinFrom (i total : Nat) (out : String) (names : List Name) :
    Name.writeAll i total out names = joinFrom i total out (names.map Name.text) := by
  induction names generalizing i out with
  | nil => rfl
  | cons n ns ih => rw [Name.writeAll, ih, List.map_cons, joinFrom]

theorem Name.writeAll_eq (out : String) (names : List Name) :
    Name.writeAll 0 names.length out names = out ++ joinList (names.map Name.text) := by
  rw [Name.writeAll_eq_joinFrom, ← joinFrom_length, List.length_map]

/-! ## Declarations -/

/-- Values with what introduces them and their noun; nothing if there are none. -/
def valuesText (lead : String) (values : List Expr) : String :=
  if values.isEmpty then ""
  else lead ++ noun "value" values.length ++ " " ++ joinList (values.map Expr.english)

theorem writeValues_eq (lead out : String) (values : List Expr) :
    writeValues lead out values = out ++ valuesText lead values := by
  unfold writeValues valuesText
  split
  · simp
  · simp [Expr.writeList_eq, String.append_assoc]

namespace Spec

/-- A line of a declaration in English. -/
def english (s : Spec) : String :=
  s.write ""

/-- A line of a declaration after the noun for its names. An import has none of its own. -/
def textUnder (word : DeclWord) (s : Spec) : String :=
  match word with
  | .import_ => s.english
  | _ => noun word.noun s.nameCount ++ " " ++ s.english

theorem write_value (out : String) (names : List Name) (type : Option Expr)
    (values : List Expr) :
    (Spec.value names type values).write out =
      out ++ joinList (names.map Name.text) ++ type.elim "" (fun t => " as " ++ t.english) ++
        valuesText " with initial " values := by
  cases type with
  | none => simp [Spec.write, Name.writeAll_eq, writeValues_eq]
  | some t => simp [Spec.write, Name.writeAll_eq, writeValues_eq, t.write_eq, String.append_assoc]

theorem write_eq (out : String) (s : Spec) : s.write out = out ++ s.english := by
  cases s with
  | importing name path => simp [english, Spec.write, String.append_assoc]
  | value names type values =>
      simp only [english, write_value, String.empty_append, String.append_assoc]
  | type name assign t => simp [english, Spec.write, t.write_eq, String.append_assoc]

theorem writeUnder_eq (word : DeclWord) (out : String) (s : Spec) :
    s.writeUnder word out = out ++ s.textUnder word := by
  cases word <;> simp [writeUnder, textUnder, s.write_eq, String.append_assoc]

theorem writeAll_eq_joinFrom (word : DeclWord) (i total : Nat) (out : String) (ss : List Spec) :
    Spec.writeAll word i total out ss = joinFrom i total out (ss.map (textUnder word)) := by
  induction ss generalizing i out with
  | nil => rfl
  | cons s ss ih => rw [Spec.writeAll, ih, s.writeUnder_eq, List.map_cons, joinFrom]

theorem writeAll_eq (word : DeclWord) (out : String) (ss : List Spec) :
    Spec.writeAll word 0 ss.length out ss = out ++ joinList (ss.map (textUnder word)) := by
  rw [writeAll_eq_joinFrom, ← joinFrom_length, List.length_map]

end Spec

theorem Decl.write_eq (out : String) (d : Decl) : d.write out = out ++ d.english := by
  cases d with
  | group _ word _ _ specs _ =>
      simp only [Decl.english, Decl.write, Spec.writeAll_eq, String.empty_append,
        String.append_assoc]
  | func _ _ _ name type _ =>
      cases type with
      | funcType _ _ params results =>
          rw [Decl.english, Decl.write, Decl.write]
          simp only [Field.writeSignature]
          rw [Field.write_clause, Field.write_clause, String.empty_append]
          simp only [String.append_assoc]
      | _ => simp [Decl.english, Decl.write, String.append_assoc]
  | bad => simp [Decl.english, Decl.write]

/-! ## Statements -/

theorem Stmt.write_eq (out : String) (s : Stmt) : s.write out = out ++ s.english := by
  cases s with
  | empty => simp [Stmt.english, Stmt.write]
  | expr _ x => exact x.write_eq out
  | decl _ d => exact d.write_eq out
  | assign _ lhs op _ rhs =>
      cases op <;>
        simp [Stmt.english, Stmt.write, writeValues_eq, Expr.writeList_eq, String.append_assoc]
  | _ => simp [Stmt.english, Stmt.write, String.append_assoc]

/--
**Nodes are said by their parts.** Whatever text is there already, an expression, a
statement or a declaration adds what it says on its own, and a list adds the list of
what its items say: nothing for no item, the item for one, and otherwise all but the
last with commas between them, "and", and the last. So the names and values of a line,
both sides of an assignment and the lines of a group are lists of what their parts
say, and a noun in front of one is plural if and only if it counts more than one.
-/
theorem said_by_parts :
    (∀ (out : String) (x : Expr), x.write out = out ++ x.english) ∧
    (∀ (out : String) (s : Stmt), s.write out = out ++ s.english) ∧
    (∀ (out : String) (d : Decl), d.write out = out ++ d.english) ∧
    (∀ (out : String) (xs : List Expr),
      Expr.writeList out xs = out ++ joinList (xs.map Expr.english)) ∧
    (joinList [] = "" ∧ (∀ item, joinList [item] = item) ∧
      ∀ item items last, joinList (item :: items ++ [last]) =
        ", ".intercalate (item :: items) ++ " and " ++ last) ∧
    (∀ (out : String) (names : List Name) (type : Option Expr) (values : List Expr),
      (Spec.value names type values).write out =
        out ++ joinList (names.map Name.text) ++ type.elim "" (fun t => " as " ++ t.english) ++
          valuesText " with initial " values) ∧
    (∀ (span opPos : Span) (lhs rhs : List Expr),
      (Stmt.assign span lhs .define opPos rhs).english =
        "short declare " ++ noun "variable" lhs.length ++ " " ++
          joinList (lhs.map Expr.english) ++ valuesText " with initial " rhs) ∧
    (∀ (span opPos : Span) (lhs rhs : List Expr),
      (Stmt.assign span lhs .assign opPos rhs).english =
        "assign to " ++ joinList (lhs.map Expr.english) ++ valuesText " the " rhs) ∧
    (∀ (span : Span) (word : DeclWord) (wordPos : Span) (lparen : Option Span)
      (specs : List Spec) (rparen : Option Span),
      (Decl.group span word wordPos lparen specs rparen).english =
        word.lead specs.length ++ joinList (specs.map (Spec.textUnder word))) ∧
    ∀ (word : String) (count : Nat),
      (noun word count = word ++ "s" ↔ 1 < count) ∧ (noun word count = word ↔ count ≤ 1) := by
  refine ⟨Expr.write_eq, Stmt.write_eq, Decl.write_eq, Expr.writeList_eq,
    ⟨rfl, fun item => ?_, joinList_concat⟩, Spec.write_value, fun _ _ lhs rhs => ?_,
    fun _ _ lhs rhs => ?_, fun _ word _ _ specs _ => ?_,
    fun word count => ⟨noun_eq_plural_iff word count, noun_eq_singular_iff word count⟩⟩
  · simp [joinList, joinFrom, separator]
  · rw [Stmt.english, Stmt.write]
    simp only [writeValues_eq, Expr.writeList_eq, String.empty_append]
  · rw [Stmt.english, Stmt.write]
    simp only [writeValues_eq, Expr.writeList_eq, String.empty_append]
  · rw [Decl.english, Decl.write, Spec.writeAll_eq, String.empty_append]

end GoGloss
