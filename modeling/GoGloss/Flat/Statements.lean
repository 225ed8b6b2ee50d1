import GoGloss.Flat.Declarations
import GoGloss.Flat.Expressions
import GoGloss.Grammar.Statements

/-!
# Statements in flat form

The productions for statements, with every node put into the arena. Two kinds of
nodes stay behind there: the identifier that turns out to be a label, and the simple
statement in a header that turns out to be a condition or a tag. The first leaves its
name to the labeled statement, the second its expression to the statement it is the
header of.
-/

namespace GoGloss.Flat

open Grammar

variable (inner : Inner)

/-! ## Simple statements -/

/-- The rest of an assignment that starts at `start`, its operator being ahead. -/
def assignment (start : Nat) (lhs : List ExprId) (op : AssignOp) : Builder StmtId := do
  let opPos ← take
  let rhs ← exprList inner
  let lhs ← shelveExprs lhs
  let rhs ← shelveExprs rhs
  allocStmt (.assign lhs op opPos rhs) (← spanFrom start)

/-- The rest of a simple statement that starts at `start` with the one expression `x`. -/
def afterExpr (start : Nat) (x : ExprId) : Builder StmtId := do
  match ← peek with
  | .mark .arrow =>
    let opPos ← take
    let value ← expr inner
    allocStmt (.send x opPos value) (← spanFrom start)
  | t =>
    match StepOp.ofToken? t with
    | some op =>
      let opPos ← take
      allocStmt (.step x op opPos) (← spanFrom start)
    | none => allocStmt (.expr x) (← spanFrom start)

/-- The one expression of a list. -/
def oneExpr : List ExprId → Builder ExprId
  | [x] => return x
  | xs => do
    let a ← arena
    failAt (xs.head?.elim default a.span) .severalExpressions

/-- The rest of a simple statement that starts at `start` with some expressions. -/
def afterExprs (start : Nat) (lhs : List ExprId) : Builder StmtId := do
  match AssignOp.ofToken? (← peek) with
  | some op => assignment inner start lhs op
  | none => afterExpr inner start (← oneExpr lhs)

/-- A simple statement. -/
def simpleStmt : Builder StmtId :=
  Body.simpleStmt (exprList inner) (afterExprs inner)

/-- The identifier that a list of expressions consists of, if it does. -/
def label? (a : Arena) : List ExprId → Option Ident
  | [x] =>
    match a.node? x with
    | some (.ident n) => some n
    | _ => none
  | _ => none

/-- A simple statement, or a label and the statement after it. -/
def simpleOrLabeled : Builder StmtId := do
  let start ← here
  let lhs ← exprList inner
  match label? (← arena) lhs, ← peek with
  | some label, .mark .colon =>
    discard take
    let s ← stmt inner
    allocStmt (.labeled label s) (← spanFrom start)
  | _, _ => afterExprs inner start lhs

/-! ## Headers -/

/-- The expression that a statement in a header consists of. -/
def headerExpr (part : HeaderPart) (s : StmtId) : Builder ExprId := do
  let a ← arena
  match a.node? s with
  | some (.expr x) => return x
  | some (.assign ..) => failAt (a.span s) (.notAnExpression part true)
  | _ => failAt (a.span s) (.notAnExpression part false)

/-- The header of an `if`: a statement and a condition, or a condition alone. -/
def ifHeader : Builder (Option StmtId × ExprId) := do
  if ← isAt (.mark .lbrace) then failHere (.missingCondition .if_)
  else
    let (init, cond) ← inHeader (Body.ifParts (simpleStmt inner))
    match cond with
    | some cond => return (init, ← headerExpr .condition cond)
    | none => failHere (.missingCondition .if_)

/-- An `if` statement. -/
def ifStmt : Builder StmtId := do
  let start ← here
  discard <| expect (.keyword .if_)
  let (init, cond) ← ifHeader inner
  let body ← block inner
  let otherwise ←
    if ← eats (.keyword .else_) then
      match ← peek with
      | .keyword .if_ => some <$> nested inner.ifStmt
      | .mark .lbrace =>
        let elseStart ← here
        let elseBody ← block inner
        some <$> allocStmt (.block elseBody) (← spanFrom elseStart)
      | _ => failExpected .ifOrBlock
    else pure none
  allocStmt (.ifElse init cond body otherwise) (← spanFrom start)

/-- The rest of a range clause whose iteration variables and operator are read. -/
def rangeClause (vars : List ExprId) (op : AssignOp) : Builder (ForHeader ExprId StmtId) := do
  match vars with
  | _ :: _ :: extra :: _ => failAt ((← arena).span extra) .tooManyIterationVariables
  | _ => return .range vars[0]? vars[1]? (some op) (← expr inner)

/-- The first statement of a `for` header, or a range clause. -/
def forStart : Builder (StmtId ⊕ ForHeader ExprId StmtId) := do
  let start ← here
  let lhs ← exprList inner
  match AssignOp.ofToken? (← peek) with
  | none => .inl <$> (do afterExpr inner start (← oneExpr lhs))
  | some op =>
    let opPos ← take
    if op.introducesRange && (← isAt (.keyword .range_)) then
      discard take
      .inr <$> rangeClause inner lhs op
    else
      let rhs ← exprList inner
      let lhs ← shelveExprs lhs
      let rhs ← shelveExprs rhs
      .inl <$> allocStmt (.assign lhs op opPos rhs) (← spanFrom start)

/-- The clauses of a `for` header after its first statement. -/
def forClauses (first : Option StmtId) : Builder (ForHeader ExprId StmtId) :=
  Body.forClauses (simpleStmt inner) first

/-- The header of a `for`. -/
def forHeader : Builder (ForHeader ExprId StmtId) :=
  Body.forHeader (forClauses inner) (expr inner) (forStart inner)

/-- Refuses a declaration as the statement after each round of a loop. -/
def checkPost : Option StmtId → Builder Unit
  | some s => do
    let a ← arena
    match a.node? s with
    | some (.assign _ .define _ _) => failAt (a.span s) .declarationInPost
    | _ => return
  | none => return

/-- The condition of a loop, which may be left out. -/
def loopCondition : Option StmtId → Builder (Option ExprId)
  | some s => some <$> headerExpr .conditionOrRange s
  | none => return none

/-- A `for` statement. -/
def forStmt : Builder StmtId := do
  let start ← here
  discard <| expect (.keyword .for_)
  let header ← inHeader (forHeader inner)
  let body ← block inner
  match header with
  | .range key value op x => allocStmt (.range key value op x body) (← spanFrom start)
  | .clauses init cond post =>
    checkPost post
    let cond ← loopCondition cond
    allocStmt (.loop init cond post body) (← spanFrom start)

/-! ## Switches -/

/-- The header of a `switch`: a statement and a tag, a tag alone, or nothing. -/
def switchHeader : Builder (Option StmtId × Option StmtId) :=
  Body.switchHeader (simpleStmt inner)

/-- Whether an expression is the guard `x.(type)`. -/
def isTypeAssertion (a : Arena) (x : ExprId) : Bool :=
  match a.node? x with
  | some (.typeAssert _ none) => true
  | _ => false

/-- Whether a statement guards a type switch: `x.(type)` or `v := x.(type)`. -/
def isTypeGuard (a : Arena) (s : StmtId) : Bool :=
  match a.node? s with
  | some (.expr x) => isTypeAssertion a x
  | some (.assign lhs .define _ rhs) =>
    match a.items? rhs with
    | some [x] => lhs.len == 1 && isTypeAssertion a x
    | _ => false
  | _ => false

/-- A clause of a `switch`; the cases of a type switch are types. -/
def caseClause (types : Bool) : Builder StmtId := do
  let start ← here
  let cases ←
    if ← eats (.keyword .case_) then
      if types then commaList (type inner) else exprList inner
    else
      discard <| expect (.keyword .default_)
      pure []
  discard <| expect (.mark .colon)
  let body ← stmtList inner
  let cases ← shelveExprs cases
  allocStmt (.caseClause cases body) (← spanFrom start)

/-- A clause of a `select`. -/
def commClause : Builder StmtId := do
  let start ← here
  let comm ←
    if ← eats (.keyword .case_) then some <$> simpleStmt inner
    else
      discard <| expect (.keyword .default_)
      pure none
  discard <| expect (.mark .colon)
  let body ← stmtList inner
  allocStmt (.commClause comm body) (← spanFrom start)

/-- Clauses in braces. -/
def clauseBlock (clause : Builder StmtId) : Builder BlockNode := do
  let lbrace ← expect (.mark .lbrace)
  let clauses ← collect (Body.clauseRound clause)
  let rbrace ← expect (.mark .rbrace)
  return ⟨lbrace, ← shelveStmts clauses, rbrace⟩

/-- A `switch` statement, on an expression or on a type. -/
def switchStmt : Builder StmtId := do
  let start ← here
  discard <| expect (.keyword .switch_)
  let (init, tag) ← inHeader (switchHeader inner)
  let a ← arena
  let types := tag.any (isTypeGuard a)
  let body ← clauseBlock (caseClause inner types)
  match tag with
  | none => allocStmt (.switch init none body) (← spanFrom start)
  | some tag =>
    if types then allocStmt (.typeSwitch init tag body) (← spanFrom start)
    else
      let x ← headerExpr .switchTag tag
      allocStmt (.switch init (some x) body) (← spanFrom start)

/-- A `select` statement. -/
def selectStmt : Builder StmtId := do
  let start ← here
  discard take
  let body ← clauseBlock (commClause inner)
  allocStmt (.select body) (← spanFrom start)

/-! ## All statements -/

/-- Whether an expression is a call, parentheses aside. -/
def isCall (a : Arena) (x : ExprId) : Bool :=
  match a.node? (a.unparen x) with
  | some (.call ..) => true
  | _ => false

/-- The call after `go` or `defer`. -/
def callAfter (word : Keyword) : Builder ExprId := do
  let x ← expr inner
  let a ← arena
  if isCall a x then return x else failAt (a.span x) (.notACall word)

/-- A `go` statement. -/
def goStmt : Builder StmtId := do
  let start ← here
  let pos ← take
  let x ← callAfter inner .go_
  allocStmt (.go pos x) (← spanFrom start)

/-- A `defer` statement. -/
def deferStmt : Builder StmtId := do
  let start ← here
  let pos ← take
  let x ← callAfter inner .defer_
  allocStmt (.defer pos x) (← spanFrom start)

/-- A `return` statement. -/
def returnStmt : Builder StmtId := do
  let start ← here
  let pos ← take
  let results ←
    match ← peek with
    | .mark .semicolon | .mark .rbrace | .eof => pure .empty
    | _ => do shelveExprs (← exprList inner)
  allocStmt (.ret pos results) (← spanFrom start)

/-- The label after a jump; a `fallthrough` has none. -/
def jumpLabel : Jump → Builder (Option Ident)
  | .fallthrough_ => return none
  | _ => do
    match ← peek with
    | .name _ => some <$> ident
    | _ => return none

/-- A statement that jumps. -/
def jumpStmt (kind : Jump) : Builder StmtId := do
  let start ← here
  discard take
  let label ← jumpLabel kind
  allocStmt (.jump kind label) (← spanFrom start)

/-- The empty statement, which takes nothing. -/
def emptyStmt : Builder StmtId := do
  let span := Span.point (← here)
  allocStmt (.empty span) span

/-- A block as a statement. -/
def blockStmt : Builder StmtId := do
  let start ← here
  let body ← block inner
  allocStmt (.block body) (← spanFrom start)

/-- A declaration as a statement. -/
def declStmt : Builder StmtId := do
  let start ← here
  let d ← groupDecl inner
  allocStmt (.decl d) (← spanFrom start)

/-- A statement, told by its first token. -/
def stmtHere : Builder StmtId :=
  Body.stmtHere emptyStmt (declStmt inner) (goStmt inner) (deferStmt inner) (returnStmt inner)
    (blockStmt inner) (ifStmt inner) (forStmt inner) (switchStmt inner) (selectStmt inner)
    jumpStmt (simpleOrLabeled inner)

end GoGloss.Flat
