import GoGloss.Fragment
import GoGloss.Sentence

/-!
# Explanations

A fragment does not say what it is. It is tried as an expression, then as a
declaration, then as a statement, and the first reading that works is put into
English. When none does, the failures of all three are reported together.
-/

namespace GoGloss

/-- What a fragment can be tried as. -/
inductive Category where
  | expression
  | declaration
  | statement
deriving DecidableEq, Repr

namespace Category

/-- The category with its article. -/
def text : Category → String
  | .expression => "an expression"
  | .declaration => "a declaration"
  | .statement => "a statement"

/-- The categories in the order they are tried. -/
def order : List Category := [.expression, .declaration, .statement]

/-- Reads a source in one category and puts it into English. -/
def explain (category : Category) (src : String) : Except Failure String :=
  match category with
  | .expression => (parseExpr src).map (·.root.english)
  | .declaration => (parseDecl src).map (·.root.english)
  | .statement => (parseStmt src).map (·.root.english)

end Category

/-- A reading that failed. -/
structure Attempt where
  category : Category
  failure : Failure
deriving DecidableEq, Repr

/-- A fragment that cannot be read, and the readings that failed. -/
structure Unparseable where
  attempts : List Attempt
deriving DecidableEq, Repr

namespace Unparseable

/-- The failure of one reading in one line. -/
def reason (a : Attempt) : String :=
  "as " ++ a.category.text ++ ": " ++ a.failure.describe

/-- What is reported: a headline, and a line for every reading. -/
def message (e : Unparseable) : String :=
  "failed to parse fragment of Go code:\n" ++ String.intercalate "\n" (e.attempts.map reason)

/-- The code of the error. -/
def code : String := "godecl::unparseable"

/-- What to do about the error. -/
def help : String :=
  "The fragment must be a single Go expression, declaration or statement. " ++
  "Check for unbalanced brackets or a missing operand."

/-- The error in full, with its code and the help. -/
def report (e : Unparseable) : String :=
  code ++ "\n\n" ++ e.message ++ "\n\nhelp: " ++ help ++ "\n"

end Unparseable

/-- Tries a source in some categories, after the readings that failed already. -/
def explainFrom (src : String) (failed : List Attempt) :
    List Category → Except Unparseable String
  | [] => .error ⟨failed⟩
  | category :: categories =>
    match category.explain src with
    | .ok english => .ok english
    | .error failure => explainFrom src (failed ++ [⟨category, failure⟩]) categories

/-- A fragment in English. -/
def explain (src : String) : Except Unparseable String :=
  explainFrom src [] Category.order

end GoGloss
