import GoGloss.Diagnostic
import GoGloss.Lexeme

/-!
# Syntax faults

Reading stops at the first fault. A fault says what is wrong in the terms of the
grammar; the one place that puts it into words is `Fault.message`.
-/

namespace GoGloss.Grammar

/-- What the grammar asks for where something else stands. -/
inductive Wanted where
  | token (token : Token)
  | name
  | declaration
  | fieldOrEmbedded
  | importPath
  | ifOrBlock
  | operand
  | selectorOrAssertion
  | statement
  | type
deriving DecidableEq, Repr

/-- The wording of what is asked for. -/
def Wanted.text : Wanted → String
  | .token t => "'" ++ t.symbol ++ "'"
  | .name => "'IDENT'"
  | .declaration => "declaration"
  | .fieldOrEmbedded => "field name or embedded type"
  | .importPath => "import path"
  | .ifOrBlock => "if statement or block"
  | .operand => "operand"
  | .selectorOrAssertion => "selector or type assertion"
  | .statement => "statement"
  | .type => "type"

/--
How the token that stands there is called: the end of a line as such, a name or
literal by its text, anything else by its quoted symbol.
-/
def foundText (l : Lexeme) : String :=
  if l.isLineEnd then "newline"
  else if l.token.hasOwnText then l.token.text
  else "'" ++ l.token.text ++ "'"

/-- The expression that a statement's header asks for. -/
inductive HeaderPart where
  | condition
  | conditionOrRange
  | switchTag
deriving DecidableEq, Repr

/-- The wording of a header's part. -/
def HeaderPart.text : HeaderPart → String
  | .condition => "boolean expression"
  | .conditionOrRange => "boolean or range expression"
  | .switchTag => "switch expression"

/-- What is wrong with a fragment. -/
inductive Fault where
  | expected (wanted : Wanted) (found : Lexeme)
  /-- Expressions, types and statements lie too deep inside one another. -/
  | tooDeep
  | mixedParameters
  | missingMiddleBound
  | missingFinalBound
  /-- A list of expressions where one is asked for. -/
  | severalExpressions
  | tooManyIterationVariables
  /-- `go` or `defer` in front of something that is no call. -/
  | notACall (word : Keyword)
  /-- A statement stands where an expression is asked for. -/
  | notAnExpression (part : HeaderPart) (assignment : Bool)
  | missingCondition (word : Keyword)
  | declarationInPost
  /-- A repetition that went on without taking a token. -/
  | stalled
deriving DecidableEq, Repr

/-- The wording of a fault. -/
def Fault.message : Fault → String
  | .expected wanted found => "expected " ++ wanted.text ++ ", found " ++ foundText found
  | .tooDeep => "exceeded max nesting depth"
  | .mixedParameters => "mixed named and unnamed parameters"
  | .missingMiddleBound => "middle index required in 3-index slice"
  | .missingFinalBound => "final index required in 3-index slice"
  | .severalExpressions => "expected 1 expression"
  | .tooManyIterationVariables => "range clause permits at most two iteration variables"
  | .notACall word => "expression in " ++ word.text ++ " must be function call"
  | .notAnExpression part assignment =>
    "expected " ++ part.text ++ ", found "
      ++ (if assignment then "assignment" else "simple statement")
      ++ " (missing parentheses around composite literal?)"
  | .missingCondition word => "missing condition in " ++ word.text ++ " statement"
  | .declarationInPost => "cannot declare in post statement of for loop"
  | .stalled => "no progress"

/-- A fault and the bytes it is about. -/
structure SyntaxError where
  fault : Fault
  span : Span
deriving DecidableEq, Repr

/-- The complaint about a fault. -/
def SyntaxError.diagnostic (e : SyntaxError) : Diagnostic :=
  ⟨.parsing, e.span, e.fault.message⟩

end GoGloss.Grammar
