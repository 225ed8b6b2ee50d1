import GoGloss.Grammar.Fault
import GoGloss.Workbench

/-!
# The cursor

Where the reader of a fragment stands: the lexemes ahead, how deep it is nested,
whether a brace may open a composite literal here, and the nodes made so far. A
`Parser` moves the cursor on and either returns what it read or stops with a
fault; the cursor is there in both cases.

The end of the source is not a lexeme. When none are left, the cursor shows one
that stands for the end, and taking it changes nothing but where the last taken
token stopped.
-/

namespace GoGloss.Grammar

/-- How deep expressions, types and statements may lie inside one another. -/
def maxDepth : Nat := 256

/-- The state of reading a fragment, with the nodes kept on a bench of some kind. -/
structure Cursor (β : Type := Workbench) where
  /-- The lexemes ahead. -/
  rest : List Lexeme
  /-- The offset where the source ends. -/
  sourceEnd : Nat
  /-- The offset where the last taken token stopped. -/
  lastStop : Nat := 0
  /--
  Below zero in the header of a control statement, where a brace opens the body;
  every bracket around an expression raises it by one.
  -/
  exprLevel : Int := 0
  /-- How deep the reader is nested. -/
  depth : Nat := 0
  /-- The nodes made so far. -/
  bench : β

namespace Cursor

variable {β : Type}

/-- A cursor at the start of a source of `size` bytes. -/
def start (lexemes : List Lexeme) (size : Nat) : Cursor :=
  { rest := lexemes, sourceEnd := size, bench := {} }

/-- The lexeme ahead. -/
def head (c : Cursor β) : Lexeme :=
  match c.rest with
  | [] => ⟨c.sourceEnd, c.sourceEnd, .eof⟩
  | l :: _ => l

/-- The token after the one ahead. -/
def second (c : Cursor β) : Token :=
  match c.rest with
  | _ :: l :: _ => l.token
  | _ => .eof

/-- The cursor after taking the lexeme ahead. -/
def advance (c : Cursor β) : Cursor β :=
  { c with rest := c.rest.tail, lastStop := c.head.stop }

/-- The span from an offset to where the last taken token stopped. -/
def spanFrom (c : Cursor β) (start : Nat) : Span :=
  Span.of start (max c.lastStop start)

end Cursor

/-- A reader of part of a fragment, which keeps its nodes on a bench of some kind. -/
abbrev Reader (β : Type) := EStateM SyntaxError (Cursor β)

/-- A reader of part of a fragment that makes trees. -/
abbrev Parser := Reader Workbench

variable {α β : Type}

/-! ## Looking ahead -/

/-- The token ahead. -/
def peek : Reader β Token := do
  return (← get).head.token

/-- The token after the one ahead. -/
def peekSecond : Reader β Token := do
  return (← get).second

/-- The offset of the token ahead. -/
def here : Reader β Nat := do
  return (← get).head.start

/-- The span from an offset to where the last taken token stopped. -/
def spanFrom (start : Nat) : Reader β Span := do
  return (← get).spanFrom start

/-- Whether the token ahead is a given one. -/
def isAt (t : Token) : Reader β Bool := do
  return (← peek) = t

/-! ## Stopping with a fault -/

/-- Stops with a fault about some bytes. -/
def failAt (span : Span) (fault : Fault) : Reader β α :=
  throw ⟨fault, span⟩

/-- Stops with a fault about the token ahead. -/
def failHere (fault : Fault) : Reader β α := do
  failAt (← get).head.span fault

/-- Stops because something else is asked for than the token ahead. -/
def failExpected (wanted : Wanted) : Reader β α := do
  failHere (.expected wanted (← get).head)

/-! ## Taking tokens -/

/-- Takes the token ahead. -/
def take : Reader β Span := do
  let c ← get
  set c.advance
  return c.head.span

/-- Takes the token ahead if it is the given one. -/
def eat (t : Token) : Reader β (Option Span) := do
  if ← isAt t then return some (← take) else return none

/-- Takes the token ahead if it is the given one, and tells whether it did. -/
def eats (t : Token) : Reader β Bool := do
  return (← eat t).isSome

/-- Takes the given token, which must be ahead. -/
def expect (t : Token) : Reader β Span := do
  match ← eat t with
  | some span => return span
  | none => failExpected (.token t)

/--
Ends a statement, a specification or a field: a semicolon is taken, and nothing
is needed in front of a closing delimiter or at the end.
-/
def expectEnd : Reader β Unit := do
  match ← peek with
  | .mark .semicolon => discard take
  | .mark .rparen | .mark .rbrace | .eof => return
  | _ => failExpected (.token (.mark .semicolon))

/-! ## Making nodes -/

/-- Puts an expression on the workbench. -/
def makeExpr (x : Expr) : Parser Expr := do
  modify fun c => { c with bench := c.bench.addExpr x }
  return x

/-- Puts a statement on the workbench. -/
def makeStmt (s : Stmt) : Parser Stmt := do
  modify fun c => { c with bench := c.bench.addStmt s }
  return s

/-- Puts a declaration on the workbench. -/
def makeDecl (d : Decl) : Parser Decl := do
  modify fun c => { c with bench := c.bench.addDecl d }
  return d

/-- Puts a field on the workbench. -/
def makeField (f : Field) : Parser Field := do
  modify fun c => { c with bench := c.bench.addField f }
  return f

/-- Takes an identifier. -/
def name : Parser Name := do
  match ← peek with
  | .name text =>
    let pos ← take
    modify fun c => { c with bench := c.bench.addName text }
    return ⟨text, pos⟩
  | _ => failExpected .name

/-- Takes a literal of text, if one is ahead. -/
def textLiteral? : Reader β (Option Literal) := do
  match ← peek with
  | .literal kind text => if kind.isText then return some ⟨kind, ← take, text⟩ else return none
  | _ => return none

/-! ## Nesting -/

/-- Goes one level deeper, unless the limit is reached. -/
def enter : Reader β Unit := do
  let c ← get
  if maxDepth ≤ c.depth then failHere .tooDeep else set { c with depth := c.depth + 1 }

/-- Runs a reader and then puts the depth to what is given, whether it succeeds or not. -/
@[noinline]
def leavingDepth (depth : Nat) (p : Reader β α) : Reader β α := fun c =>
  match p c with
  | .ok a c => .ok a { c with depth := depth }
  | .error e c => .error e { c with depth := depth }

/-- Runs a reader one level deeper and comes back, whatever levels it entered itself. -/
def nested (p : Reader β α) : Reader β α := do
  leavingDepth (← get).depth do
    enter
    p

/-- Runs a reader and, when it succeeds, puts the expression level to what is given. -/
@[noinline]
def leavingExprLevel (level : Int) (p : Reader β α) : Reader β α := do
  let a ← p
  modify fun c => { c with exprLevel := level }
  return a

/-- Runs a reader inside brackets, where braces may open composite literals again. -/
def bracketed (p : Reader β α) : Reader β α := do
  modify fun c => { c with exprLevel := c.exprLevel + 1 }
  let a ← p
  modify fun c => { c with exprLevel := c.exprLevel - 1 }
  return a

/-- Runs a reader in the header of a control statement. -/
def inHeader (p : Reader β α) : Reader β α := do
  leavingExprLevel (← get).exprLevel do
    modify fun c => { c with exprLevel := -1 }
    p

end GoGloss.Grammar
