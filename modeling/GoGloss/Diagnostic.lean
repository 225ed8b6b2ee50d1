import GoGloss.Span
import GoGloss.Position

/-!
# Diagnostics and failures

A diagnostic is one complaint about a source, with the place it is about. A
failure is all that was wrong with one reading of a source: it is described by
its first diagnostic, and the others are only counted.
-/

namespace GoGloss

/-- Which step complains: cutting the source into tokens, or reading them. -/
inductive Stage where
  | lexing
  | parsing
deriving DecidableEq, Repr

/-- One complaint about a range of the source. -/
structure Diagnostic where
  stage : Stage
  span : Span
  message : String
deriving DecidableEq, Repr

/-- Why a source could not be read: its complaints, and where the first one is. -/
structure Failure where
  position : Position
  diagnostics : List Diagnostic
deriving DecidableEq, Repr

namespace Failure

/-- The failure that consists of these complaints about `src`. -/
def of (src : String) (diagnostics : List Diagnostic) : Failure where
  position := Position.locate src (diagnostics.head?.elim 0 (·.span.start))
  diagnostics := diagnostics

/-- The text of the first complaint. -/
def headline (f : Failure) : String :=
  f.diagnostics.head?.elim "" (·.message)

/-- How the complaints after the first are mentioned. -/
def others (f : Failure) : String :=
  match f.diagnostics.length with
  | 0 | 1 => ""
  | 2 => " (and 1 more error)"
  | n + 1 => " (and " ++ toString n ++ " more errors)"

/-- The failure in one line: place, first complaint, and how many more there are. -/
def describe (f : Failure) : String :=
  toString f.position.line ++ ":" ++ toString f.position.column ++ ": " ++ f.headline ++ f.others

end Failure

end GoGloss
