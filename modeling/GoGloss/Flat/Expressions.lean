import GoGloss.Flat.Types
import GoGloss.Grammar.Expressions

/-!
# Expressions in flat form

The productions for expressions, with every node put into the arena. What follows an
operand depends on the operand, which is looked up in the arena again.
-/

namespace GoGloss.Flat

open Grammar

variable (inner : Inner)

/-! ## Operands -/

/-- An expression in parentheses. -/
def parenExpr : Builder ExprId := do
  let start ← here
  let lparen ← take
  let x ← bracketed (expr inner)
  let rparen ← expect (.mark .rparen)
  allocExpr (.paren lparen x rparen) (← spanFrom start)

/-- A function type, or a function literal if a body follows it. -/
def funcTypeOrLit : Builder ExprId := do
  let start ← here
  let t ← funcType inner
  if ← isAt (.mark .lbrace) then
    let body ← bracketed (block inner)
    allocExpr (.funcLit t body) (← spanFrom start)
  else return t

/-- An operand on its own. -/
def operand : Builder ExprId := do
  match ← peek with
  | .name _ =>
    let n ← ident
    allocExpr (.ident n) n.pos
  | .mark .lparen => parenExpr inner
  | .keyword .func_ => funcTypeOrLit inner
  | .literal kind _ =>
    let raw ← take
    allocExpr (.literal ⟨kind, raw⟩) raw
  | _ => Body.type .operand (type? inner)

/-! ## What follows an operand -/

/--
Whether a brace after `x` opens a composite literal. In a header it does only after a
type that cannot be taken for an operand.
-/
def opensLiteral (a : Arena) (x : ExprId) (exprLevel : Int) : Bool :=
  match a.node? (a.unparen x) with
  | some (.bad _) | some (.ident _) | some (.selector ..) | some (.index ..)
  | some (.indexList ..) => 0 ≤ exprLevel
  | some (.arrayType ..) | some (.structType ..) | some (.mapType ..) => true
  | _ => false

/-- A selector or a type assertion on `x`, which starts at `start`. -/
def selectorOrAssertion (x : ExprId) (start : Nat) : Builder ExprId := do
  discard take
  match ← peek with
  | .name _ =>
    let member ← ident
    allocExpr (.selector x member) (← spanFrom start)
  | .mark .lparen =>
    discard take
    let t ← if ← eats (.keyword .type_) then pure none else some <$> type inner
    discard <| expect (.mark .rparen)
    allocExpr (.typeAssert x t) (← spanFrom start)
  | _ => failExpected .selectorOrAssertion

/-- A bound of a slice expression, which may be left out. -/
def sliceBound : Builder (Option ExprId) :=
  Body.sliceBound (expr inner)

/-- The bounds of a slice expression after the first, and whether there are two colons. -/
def sliceBounds : Builder (Option ExprId × Option ExprId × Bool) :=
  Body.sliceBounds (sliceBound inner)

/-- What stands between the brackets after an operand, up to the closing one. -/
def subscript : Builder (Subscript ExprId) :=
  Body.subscript (expr inner) (moreUntil .rbrack (expr inner)) (sliceBounds inner)

/-- An index, several, or a slice of `x`, which starts at `start`. -/
def subscripted (x : ExprId) (start : Nat) : Builder ExprId := do
  discard take
  let sub ← bracketed (subscript inner)
  let rbrack ← expect (.mark .rbrack)
  let span ← spanFrom start
  match sub with
  | .indices first [] => allocExpr (.index x first) span
  | .indices first others => allocExpr (.indexList x (← shelveExprs (first :: others))) span
  | .slice _ none _ true => failAt rbrack .missingMiddleBound
  | .slice _ _ none true => failAt rbrack .missingFinalBound
  | .slice lo hi max full => allocExpr (.slice x lo hi max full) span

/-- One argument of a call, and the place of the dots after it; dots end the list. -/
def argRound : Builder (Round (ExprId × Option Span)) :=
  Body.argRound (expr inner)

/-- A call of `f`, which starts at `start`. Arguments may be types. -/
def call (f : ExprId) (start : Nat) : Builder ExprId := do
  discard take
  let args ← bracketed (collect (argRound inner))
  discard <| expect (.mark .rparen)
  let dots := args.getLast?.bind (·.2)
  let args ← shelveExprs (args.map (·.1))
  allocExpr (.call f args dots) (← spanFrom start)

/-- A key or a value in a composite literal; a literal there may leave out its type. -/
def elementValue : Builder ExprId :=
  Body.elementValue inner.literalValue (expr inner)

/-- An element of a composite literal, with its key if it has one. -/
def element : Builder ExprId := do
  let start ← here
  let key ← elementValue inner
  match ← eat (.mark .colon) with
  | none => return key
  | some colon =>
    let value ← elementValue inner
    allocExpr (.keyValue key colon value) (← spanFrom start)

/-- The braces of a composite literal of some type, which starts at `start`. -/
def literalValue (t : Option ExprId) (start : Nat) : Builder ExprId := do
  let lbrace ← expect (.mark .lbrace)
  let elements ← bracketed (commaListUntil .rbrace (element inner))
  let rbrace ← expect (.mark .rbrace)
  let elements ← shelveExprs elements
  allocExpr (.composite t lbrace elements rbrace) (← spanFrom start)

/-- One more thing written after an operand that starts at `start`, if there is one. -/
def postfixRound (start : Nat) (x : ExprId) : Builder (Option ExprId) := do
  match ← peek with
  | .mark .dot =>
    enter
    some <$> selectorOrAssertion inner x start
  | .mark .lbrack =>
    enter
    some <$> subscripted inner x start
  | .mark .lparen =>
    enter
    some <$> call inner x start
  | .mark .lbrace =>
    let c ← get
    if opensLiteral c.bench x c.exprLevel then
      enter
      some <$> literalValue inner (some x) start
    else return none
  | _ => return none

/-- An operand with all that is written after it. -/
def primary : Builder ExprId :=
  Body.chain extend (postfixRound inner) (operand inner)

/-! ## Operators -/

/-- An arrow in front of an operand, or of `chan` in a channel type. -/
def receiveExpr : Builder ExprId := do
  let start ← here
  let opPos ← take
  if ← eats (.keyword .chan_) then
    let elem ← type inner
    allocExpr (.chanType .receive elem) (← spanFrom start)
  else
    let x ← operandUnder inner
    allocExpr (.unary .receive opPos x) (← spanFrom start)

/-- A star in front of an operand. -/
def starExpr : Builder ExprId := do
  let start ← here
  let pos ← take
  let x ← operandUnder inner
  allocExpr (.star pos x) (← spanFrom start)

/-- Another operator in front of an operand. -/
def unaryExpr (op : UnaryOp) : Builder ExprId := do
  let start ← here
  let opPos ← take
  let x ← operandUnder inner
  allocExpr (.unary op opPos x) (← spanFrom start)

/-- An operand with the operators in front of it. -/
def unary : Builder ExprId :=
  Body.unary (receiveExpr inner) (starExpr inner) (unaryExpr inner) (primary inner)

/-- One more operator that binds at least as tightly as `least`, and its right operand. -/
def binaryRound (least start : Nat) (left : ExprId) : Builder (Option ExprId) := do
  match BinaryOp.ofToken? (← peek) with
  | none => return none
  | some op =>
    if op.precedence < least then return none
    else
      enter
      let opPos ← take
      let right ← inner.binary (op.precedence + 1)
      return some (← allocExpr (.binary left op opPos right) (← spanFrom start))

/-- A binary expression whose operators bind at least as tightly as `least`. -/
def binary (least : Nat) : Builder ExprId :=
  Body.chain extend (binaryRound inner least) (unary inner)

end GoGloss.Flat
