import GoGloss.Grammar.Declarations
import GoGloss.Grammar.Expressions

/-!
# Statements

A statement is told by its first token. What starts with an expression is a
simple statement: the expressions are read first, and the token after them says
which one it is. Headers of control statements hold simple statements too, one of
which then has to be a plain expression; it is read as a statement and unwrapped.
-/

namespace GoGloss.Grammar

variable {β ε σ : Type} (inner : Inner)

/-! ## Simple statements -/

/-- The rest of an assignment that starts at `start`, its operator being ahead. -/
abbrev Body.assignment (exprList : Parser (List Expr)) (start : Nat) (lhs : List Expr)
    (op : AssignOp) : Parser Stmt := do
  let opPos ← take
  let rhs ← exprList
  makeStmt (.assign (← spanFrom start) lhs op opPos rhs)

abbrev assignment (start : Nat) (lhs : List Expr) (op : AssignOp) : Parser Stmt :=
  Body.assignment (exprList inner) start lhs op

/-- The rest of a simple statement that starts at `start` with the one expression `x`. -/
abbrev Body.afterExpr (expr : Parser Expr) (start : Nat) (x : Expr) : Parser Stmt := do
  match ← peek with
  | .mark .arrow =>
    let opPos ← take
    let value ← expr
    makeStmt (.send (← spanFrom start) x opPos value)
  | t =>
    match StepOp.ofToken? t with
    | some op =>
      let opPos ← take
      makeStmt (.step (← spanFrom start) x op opPos)
    | none => makeStmt (.expr (← spanFrom start) x)

def afterExpr (start : Nat) (x : Expr) : Parser Stmt := Body.afterExpr (expr inner) start x

/-- The one expression of a list. -/
def oneExpr : List Expr → Parser Expr
  | [x] => return x
  | xs => failAt (xs.head?.elim default Expr.span) .severalExpressions

/-- The rest of a simple statement that starts at `start` with some expressions. -/
abbrev Body.afterExprs (assignment : Nat → List Expr → AssignOp → Parser Stmt)
    (afterExpr : Nat → Expr → Parser Stmt) (start : Nat) (lhs : List Expr) : Parser Stmt := do
  match AssignOp.ofToken? (← peek) with
  | some op => assignment start lhs op
  | none => afterExpr start (← oneExpr lhs)

def afterExprs (start : Nat) (lhs : List Expr) : Parser Stmt :=
  Body.afterExprs (assignment inner) (afterExpr inner) start lhs

/-- A simple statement. -/
abbrev Body.simpleStmt (exprList : Reader β ε) (afterExprs : Nat → ε → Reader β σ) :
    Reader β σ := do
  let start ← here
  let lhs ← exprList
  afterExprs start lhs

def simpleStmt : Parser Stmt := Body.simpleStmt (exprList inner) (afterExprs inner)

/-- A simple statement, or a label and the statement after it. -/
abbrev Body.simpleOrLabeled (exprList : Parser (List Expr)) (stmt : Parser Stmt)
    (afterExprs : Nat → List Expr → Parser Stmt) : Parser Stmt := do
  let start ← here
  let lhs ← exprList
  match lhs, ← peek with
  | [.ident label], .mark .colon =>
    discard take
    let s ← stmt
    makeStmt (.labeled (← spanFrom start) label s)
  | _, _ => afterExprs start lhs

def simpleOrLabeled : Parser Stmt :=
  Body.simpleOrLabeled (exprList inner) (stmt inner) (afterExprs inner)

/-! ## Headers -/

/-- The expression that a statement in a header consists of. -/
def headerExpr (part : HeaderPart) : Stmt → Parser Expr
  | .expr _ x => return x
  | .assign span .. => failAt span (.notAnExpression part true)
  | s => failAt s.span (.notAnExpression part false)

/-- What the header of an `if` is made of; the condition is still a statement. -/
abbrev Body.ifParts (simpleStmt : Reader β σ) : Reader β (Option σ × Option σ) := do
  let init ← if ← isAt (.mark .semicolon) then pure none else some <$> simpleStmt
  if ← eats (.mark .semicolon) then
    if ← isAt (.mark .lbrace) then failHere (.missingCondition .if_)
    else return (init, some (← simpleStmt))
  -- Without a semicolon, what was read is the condition.
  else return (none, init)

/-- The header of an `if`: a statement and a condition, or a condition alone. -/
abbrev Body.ifHeader (simpleStmt : Parser Stmt) : Parser (Option Stmt × Expr) := do
  if ← isAt (.mark .lbrace) then failHere (.missingCondition .if_)
  else
    let (init, cond) ← inHeader (Body.ifParts simpleStmt)
    match cond with
    | some cond => return (init, ← headerExpr .condition cond)
    | none => failHere (.missingCondition .if_)

def ifHeader : Parser (Option Stmt × Expr) := Body.ifHeader (simpleStmt inner)

/-- An `if` statement. -/
abbrev Body.ifStmt (ifHeader : Parser (Option Stmt × Expr)) (block : Parser Block)
    (ifStmt : Parser Stmt) : Parser Stmt := do
  let start ← here
  discard <| expect (.keyword .if_)
  let (init, cond) ← ifHeader
  let body ← block
  let otherwise ←
    if ← eats (.keyword .else_) then
      match ← peek with
      | .keyword .if_ => some <$> nested ifStmt
      | .mark .lbrace =>
        let elseStart ← here
        let elseBody ← block
        some <$> makeStmt (.block (← spanFrom elseStart) elseBody)
      | _ => failExpected .ifOrBlock
    else pure none
  makeStmt (.ifElse (← spanFrom start) init cond body otherwise)

def ifStmt : Parser Stmt := Body.ifStmt (ifHeader inner) (block inner) inner.ifStmt

/-- What the header of a `for` says. -/
inductive ForHeader (ε σ : Type) where
  | range (key value : Option ε) (op : Option AssignOp) (operand : ε)
  | clauses (init cond post : Option σ)

/-- The rest of a range clause whose iteration variables and operator are read. -/
abbrev Body.rangeClause (expr : Parser Expr) (vars : List Expr) (op : AssignOp) :
    Parser (ForHeader Expr Stmt) := do
  match vars with
  | _ :: _ :: extra :: _ => failAt extra.span .tooManyIterationVariables
  | _ => return .range vars[0]? vars[1]? (some op) (← expr)

def rangeClause (vars : List Expr) (op : AssignOp) : Parser (ForHeader Expr Stmt) :=
  Body.rangeClause (expr inner) vars op

/-- The first statement of a `for` header, or a range clause. -/
abbrev Body.forStart (exprList : Parser (List Expr)) (afterExpr : Nat → Expr → Parser Stmt)
    (rangeClause : List Expr → AssignOp → Parser (ForHeader Expr Stmt)) :
    Parser (Stmt ⊕ ForHeader Expr Stmt) := do
  let start ← here
  let lhs ← exprList
  match AssignOp.ofToken? (← peek) with
  | none => .inl <$> (do afterExpr start (← oneExpr lhs))
  | some op =>
    let opPos ← take
    -- `range` is no operand, so after any other operator it is a fault of the list.
    if op.introducesRange && (← isAt (.keyword .range_)) then
      discard take
      .inr <$> rangeClause lhs op
    else
      let rhs ← exprList
      .inl <$> makeStmt (.assign (← spanFrom start) lhs op opPos rhs)

def forStart : Parser (Stmt ⊕ ForHeader Expr Stmt) :=
  Body.forStart (exprList inner) (afterExpr inner) (rangeClause inner)

/-- The clauses of a `for` header after its first statement. -/
abbrev Body.forClauses (simpleStmt : Reader β σ) (first : Option σ) :
    Reader β (ForHeader ε σ) := do
  if ← eats (.mark .semicolon) then
    let cond ← if ← isAt (.mark .semicolon) then pure none else some <$> simpleStmt
    expectEnd
    let post ← if ← isAt (.mark .lbrace) then pure none else some <$> simpleStmt
    return .clauses first cond post
  else return .clauses none first none

def forClauses (first : Option Stmt) : Parser (ForHeader Expr Stmt) :=
  Body.forClauses (simpleStmt inner) first

/-- The header of a `for`. -/
abbrev Body.forHeader (forClauses : Option σ → Reader β (ForHeader ε σ)) (expr : Reader β ε)
    (forStart : Reader β (σ ⊕ ForHeader ε σ)) : Reader β (ForHeader ε σ) := do
  match ← peek with
  | .mark .lbrace => return .clauses none none none
  | .mark .semicolon => forClauses none
  | .keyword .range_ =>
    discard take
    return .range none none none (← expr)
  | _ =>
    match ← forStart with
    | .inl first => forClauses (some first)
    | .inr clause => return clause

def forHeader : Parser (ForHeader Expr Stmt) :=
  Body.forHeader (forClauses inner) (expr inner) (forStart inner)

/-- Refuses a declaration as the statement after each round of a loop. -/
def checkPost : Option Stmt → Parser Unit
  | some (.assign span _ .define _ _) => failAt span .declarationInPost
  | _ => return

/-- The condition of a loop, which may be left out. -/
def loopCondition : Option Stmt → Parser (Option Expr)
  | some s => some <$> headerExpr .conditionOrRange s
  | none => return none

/-- A `for` statement. -/
abbrev Body.forStmt (forHeader : Parser (ForHeader Expr Stmt)) (block : Parser Block) :
    Parser Stmt := do
  let start ← here
  discard <| expect (.keyword .for_)
  let header ← inHeader forHeader
  -- The body comes before the verdict on the header, so its faults come first.
  let body ← block
  match header with
  | .range key value op x => makeStmt (.range (← spanFrom start) key value op x body)
  | .clauses init cond post =>
    checkPost post
    let cond ← loopCondition cond
    makeStmt (.loop (← spanFrom start) init cond post body)

def forStmt : Parser Stmt := Body.forStmt (forHeader inner) (block inner)

/-! ## Switches -/

/-- The header of a `switch`: a statement and a tag, a tag alone, or nothing. -/
abbrev Body.switchHeader (simpleStmt : Reader β σ) : Reader β (Option σ × Option σ) := do
  if ← isAt (.mark .lbrace) then return (none, none)
  else
    let first ← if ← isAt (.mark .semicolon) then pure none else some <$> simpleStmt
    if ← eats (.mark .semicolon) then
      if ← isAt (.mark .lbrace) then return (first, none)
      else return (first, some (← simpleStmt))
    else return (none, first)

def switchHeader : Parser (Option Stmt × Option Stmt) := Body.switchHeader (simpleStmt inner)

/-- The colon of a clause that starts at `start`, and the statements under it. -/
abbrev Body.clauseBody (stmtList : Parser (List Stmt)) (clause : Span → List Stmt → Stmt)
    (start : Nat) : Parser Stmt := do
  discard <| expect (.mark .colon)
  let body ← stmtList
  makeStmt (clause (← spanFrom start) body)

/-- A clause of a `switch`; the cases of a type switch are types. -/
abbrev Body.caseClause (typeList exprList : Parser (List Expr)) (stmtList : Parser (List Stmt))
    (types : Bool) : Parser Stmt := do
  let start ← here
  let cases ←
    if ← eats (.keyword .case_) then
      if types then typeList else exprList
    else
      discard <| expect (.keyword .default_)
      pure []
  Body.clauseBody stmtList (.caseClause · cases ·) start

def caseClause (types : Bool) : Parser Stmt :=
  Body.caseClause (commaList (type inner)) (exprList inner) (stmtList inner) types

/-- A clause of a `select`. -/
abbrev Body.commClause (simpleStmt : Parser Stmt) (stmtList : Parser (List Stmt)) :
    Parser Stmt := do
  let start ← here
  let comm ←
    if ← eats (.keyword .case_) then some <$> simpleStmt
    else
      discard <| expect (.keyword .default_)
      pure none
  Body.clauseBody stmtList (.commClause · comm ·) start

def commClause : Parser Stmt := Body.commClause (simpleStmt inner) (stmtList inner)

/-- One clause, if one is ahead. -/
abbrev Body.clauseRound (clause : Reader β σ) : Reader β (Round σ) := do
  match ← peek with
  | .keyword .case_ | .keyword .default_ => return .more (← clause)
  | _ => return .done

/-- Clauses in braces. -/
def clauseBlock (clause : Parser Stmt) : Parser Block :=
  Body.block (collect (Body.clauseRound clause))

/-- The clauses of a `switch`. -/
abbrev caseBlock (types : Bool) : Parser Block := clauseBlock (caseClause inner types)

/-- The clauses of a `select`. -/
abbrev commBlock : Parser Block := clauseBlock (commClause inner)

/-- A `switch` statement, on an expression or on a type. -/
abbrev Body.switchStmt (switchHeader : Parser (Option Stmt × Option Stmt))
    (caseBlock : Bool → Parser Block) : Parser Stmt := do
  let start ← here
  discard <| expect (.keyword .switch_)
  let (init, tag) ← inHeader switchHeader
  -- What the cases are depends on the tag alone; whether the tag may stand there
  -- is judged after the clauses.
  let types := tag.any Stmt.isTypeGuard
  let body ← caseBlock types
  match tag with
  | none => makeStmt (.switch (← spanFrom start) init none body)
  | some tag =>
    if types then makeStmt (.typeSwitch (← spanFrom start) init tag body)
    else
      let x ← headerExpr .switchTag tag
      makeStmt (.switch (← spanFrom start) init (some x) body)

def switchStmt : Parser Stmt := Body.switchStmt (switchHeader inner) (caseBlock inner)

/-- A `select` statement. -/
abbrev Body.selectStmt (commBlock : Parser Block) : Parser Stmt := do
  let start ← here
  discard take
  let body ← commBlock
  makeStmt (.select (← spanFrom start) body)

def selectStmt : Parser Stmt := Body.selectStmt (commBlock inner)

/-! ## All statements -/

/-- The call after `go` or `defer`. -/
abbrev Body.callAfter (expr : Parser Expr) (word : Keyword) : Parser Expr := do
  let x ← expr
  if x.isCall then return x else failAt x.span (.notACall word)

def callAfter (word : Keyword) : Parser Expr := Body.callAfter (expr inner) word

/-- A `go` statement. -/
abbrev Body.goStmt (callAfter : Keyword → Parser Expr) : Parser Stmt := do
  let start ← here
  let pos ← take
  let x ← callAfter .go_
  makeStmt (.go (← spanFrom start) pos x)

def goStmt : Parser Stmt := Body.goStmt (callAfter inner)

/-- A `defer` statement. -/
abbrev Body.deferStmt (callAfter : Keyword → Parser Expr) : Parser Stmt := do
  let start ← here
  let pos ← take
  let x ← callAfter .defer_
  makeStmt (.defer (← spanFrom start) pos x)

def deferStmt : Parser Stmt := Body.deferStmt (callAfter inner)

/-- A `return` statement. -/
abbrev Body.returnStmt (exprList : Parser (List Expr)) : Parser Stmt := do
  let start ← here
  let pos ← take
  let results ←
    match ← peek with
    | .mark .semicolon | .mark .rbrace | .eof => pure []
    | _ => exprList
  makeStmt (.ret (← spanFrom start) pos results)

def returnStmt : Parser Stmt := Body.returnStmt (exprList inner)

/-- The label after a jump; a `fallthrough` has none. -/
def jumpLabel : Jump → Parser (Option Name)
  | .fallthrough_ => return none
  | _ => do
    match ← peek with
    | .name _ => some <$> name
    | _ => return none

/-- A statement that jumps. -/
abbrev Body.jumpStmt (jumpLabel : Jump → Parser (Option Name)) (kind : Jump) : Parser Stmt := do
  let start ← here
  discard take
  let label ← jumpLabel kind
  makeStmt (.jump (← spanFrom start) kind label)

abbrev jumpStmt (kind : Jump) : Parser Stmt := Body.jumpStmt jumpLabel kind

/-- The empty statement, which takes nothing. -/
def emptyStmt : Parser Stmt := do
  makeStmt (.empty (Span.point (← here)))

/-- A block as a statement. -/
abbrev Body.blockStmt (block : Parser Block) : Parser Stmt := do
  let start ← here
  let body ← block
  makeStmt (.block (← spanFrom start) body)

abbrev blockStmt : Parser Stmt := Body.blockStmt (block inner)

/-- A declaration as a statement. -/
abbrev Body.declStmt (groupDecl : Parser Decl) : Parser Stmt := do
  let start ← here
  let d ← groupDecl
  makeStmt (.decl (← spanFrom start) d)

abbrev declStmt : Parser Stmt := Body.declStmt (groupDecl inner)

/-- Whether no statement starts with a token. -/
def startsNoStmt : Token → Bool
  | .keyword .import_ | .keyword .package_ | .keyword .else_ | .keyword .case_
  | .keyword .default_ | .mark .rparen | .mark .rbrack | .mark .comma | .mark .colon
  | .illegal _ => true
  | _ => false

/-- A statement, told by its first token. -/
abbrev Body.stmtHere (emptyStmt declStmt goStmt deferStmt returnStmt blockStmt ifStmt forStmt
    switchStmt selectStmt : Reader β σ) (jumpStmt : Jump → Reader β σ)
    (simpleOrLabeled : Reader β σ) : Reader β σ := do
  match ← peek with
  | .mark .semicolon | .mark .rbrace | .eof => emptyStmt
  | .keyword .const_ | .keyword .type_ | .keyword .var_ => declStmt
  | .keyword .go_ => goStmt
  | .keyword .defer_ => deferStmt
  | .keyword .return_ => returnStmt
  | .mark .lbrace => blockStmt
  | .keyword .if_ => ifStmt
  | .keyword .for_ => forStmt
  | .keyword .switch_ => switchStmt
  | .keyword .select_ => selectStmt
  | t =>
    match Jump.ofToken? t with
    | some kind => jumpStmt kind
    | none => if startsNoStmt t then failExpected .statement else simpleOrLabeled

def stmtHere : Parser Stmt :=
  Body.stmtHere emptyStmt (declStmt inner) (goStmt inner) (deferStmt inner) (returnStmt inner)
    (blockStmt inner) (ifStmt inner) (forStmt inner) (switchStmt inner) (selectStmt inner)
    jumpStmt (simpleOrLabeled inner)

end GoGloss.Grammar
