import GoGloss.Grammar.Block
import GoGloss.Grammar.Types

/-!
# Expressions

Binary operators are read by climbing their precedences: the right operand takes
the operators that bind more tightly, the loop takes the others. Under them come
the operators in front of an operand, and under those the operand with what is
written after it: selectors, assertions, indices, calls and composite literals.
-/

namespace GoGloss.Grammar

variable {β ε : Type} (inner : Inner)

/-! ## Operands -/

/-- An expression in parentheses. -/
abbrev Body.parenExpr (expr : Parser Expr) : Parser Expr := do
  let start ← here
  let lparen ← take
  let x ← bracketed expr
  let rparen ← expect (.mark .rparen)
  makeExpr (.paren (← spanFrom start) lparen x rparen)

abbrev parenExpr : Parser Expr := Body.parenExpr (expr inner)

/-- A function type, or a function literal if a body follows it. -/
abbrev Body.funcTypeOrLit (funcType : Parser Expr) (block : Parser Block) : Parser Expr := do
  let start ← here
  let t ← funcType
  if ← isAt (.mark .lbrace) then
    let body ← bracketed block
    makeExpr (.funcLit (← spanFrom start) t body)
  else return t

def funcTypeOrLit : Parser Expr := Body.funcTypeOrLit (funcType inner) (block inner)

/-- An operand on its own. -/
abbrev Body.operand (parenExpr funcTypeOrLit : Parser Expr) (type? : Parser (Option Expr)) :
    Parser Expr := do
  match ← peek with
  | .name _ => makeExpr (.ident (← name))
  | .mark .lparen => parenExpr
  | .keyword .func_ => funcTypeOrLit
  | .literal kind text => makeExpr (.literal ⟨kind, ← take, text⟩)
  | _ => Body.type .operand type?

def operand : Parser Expr := Body.operand (parenExpr inner) (funcTypeOrLit inner) (type? inner)

/-! ## What follows an operand -/

/--
Whether a brace after `x` opens a composite literal. In a header it does only
after a type that cannot be taken for an operand.
-/
def opensLiteral (x : Expr) (exprLevel : Int) : Bool :=
  match x.unparen with
  | .bad _ | .ident _ | .selector .. | .index .. | .indexList .. => 0 ≤ exprLevel
  | .arrayType .. | .structType .. | .mapType .. => true
  | _ => false

/-- A selector or a type assertion on `x`, which starts at `start`. -/
abbrev Body.selectorOrAssertion (type : Parser Expr) (x : Expr) (start : Nat) : Parser Expr := do
  discard take
  match ← peek with
  | .name _ =>
    let member ← name
    makeExpr (.selector (← spanFrom start) x member)
  | .mark .lparen =>
    discard take
    let t ← if ← eats (.keyword .type_) then pure none else some <$> type
    discard <| expect (.mark .rparen)
    makeExpr (.typeAssert (← spanFrom start) x t)
  | _ => failExpected .selectorOrAssertion

def selectorOrAssertion (x : Expr) (start : Nat) : Parser Expr :=
  Body.selectorOrAssertion (type inner) x start

/-- A bound of a slice expression, which may be left out. -/
abbrev Body.sliceBound (expr : Reader β ε) : Reader β (Option ε) := do
  match ← peek with
  | .mark .colon | .mark .rbrack => return none
  | _ => some <$> expr

def sliceBound : Parser (Option Expr) := Body.sliceBound (expr inner)

/-- The bounds of a slice expression after the first, and whether there are two colons. -/
abbrev Body.sliceBounds (sliceBound : Reader β (Option ε)) :
    Reader β (Option ε × Option ε × Bool) := do
  if ← eats (.mark .colon) then
    let hi ← sliceBound
    if ← eats (.mark .colon) then
      let max ← sliceBound
      return (hi, max, true)
    else return (hi, none, false)
  else return (none, none, false)

def sliceBounds : Parser (Option Expr × Option Expr × Bool) := Body.sliceBounds (sliceBound inner)

/-- What stands between the brackets after an operand. -/
inductive Subscript (ε : Type) where
  | indices (first : ε) (others : List ε)
  | slice (lo hi max : Option ε) (full : Bool)

/-- What stands between the brackets from the end of the first expression on, if it is there. -/
abbrev Body.subscriptFrom (moreExprs : Reader β (List ε))
    (sliceBounds : Reader β (Option ε × Option ε × Bool)) (first : Option ε) :
    Reader β (Subscript ε) := do
  match first, ← isAt (.mark .colon) with
  | some first, false => return .indices first (← moreExprs)
  | lo, _ =>
    let (hi, max, full) ← sliceBounds
    return .slice lo hi max full

/-- What stands between the brackets after an operand, up to the closing one. -/
abbrev Body.subscript (expr : Reader β ε) (moreExprs : Reader β (List ε))
    (sliceBounds : Reader β (Option ε × Option ε × Bool)) : Reader β (Subscript ε) := do
  let first ← if ← isAt (.mark .colon) then pure none else some <$> expr
  Body.subscriptFrom moreExprs sliceBounds first

def subscript : Parser (Subscript Expr) :=
  Body.subscript (expr inner) (moreUntil .rbrack (expr inner)) (sliceBounds inner)

/-- An index, several, or a slice of `x`, which starts at `start`. -/
abbrev Body.subscripted (subscript : Parser (Subscript Expr)) (x : Expr) (start : Nat) :
    Parser Expr := do
  discard take
  let sub ← bracketed subscript
  let rbrack ← expect (.mark .rbrack)
  let span ← spanFrom start
  -- A bound that is missing is noticed at the closing bracket.
  match sub with
  | .indices first [] => makeExpr (.index span x first)
  | .indices first others => makeExpr (.indexList span x (first :: others))
  | .slice _ none _ true => failAt rbrack .missingMiddleBound
  | .slice _ _ none true => failAt rbrack .missingFinalBound
  | .slice lo hi max full => makeExpr (.slice span x lo hi max full)

def subscripted (x : Expr) (start : Nat) : Parser Expr := Body.subscripted (subscript inner) x start

/-- One argument of a call, and the place of the dots after it; dots end the list. -/
abbrev Body.argRound (expr : Reader β ε) : Reader β (Round (ε × Option Span)) := do
  match ← peek with
  | .mark .rparen | .eof => return .done
  | _ =>
    let x ← expr
    match ← eat (.mark .ellipsis) with
    | some dots =>
      discard <| eat (.mark .comma)
      return .last (x, some dots)
    | none => if ← eats (.mark .comma) then return .more (x, none) else return .last (x, none)

def argRound : Parser (Round (Expr × Option Span)) := Body.argRound (expr inner)

/-- A call of `f`, which starts at `start`. Arguments may be types. -/
abbrev Body.call (arguments : Parser (List (Expr × Option Span))) (f : Expr) (start : Nat) :
    Parser Expr := do
  discard take
  let args ← bracketed arguments
  discard <| expect (.mark .rparen)
  let dots := args.getLast?.bind (·.2)
  makeExpr (.call (← spanFrom start) f (args.map (·.1)) dots)

def call (f : Expr) (start : Nat) : Parser Expr := Body.call (collect (argRound inner)) f start

/-- A key or a value in a composite literal; a literal there may leave out its type. -/
abbrev Body.elementValue (literalValue : Option ε → Nat → Reader β ε) (expr : Reader β ε) :
    Reader β ε := do
  if ← isAt (.mark .lbrace) then
    let start ← here
    nested (literalValue none start)
  else expr

def elementValue : Parser Expr := Body.elementValue inner.literalValue (expr inner)

/-- An element of a composite literal, with its key if it has one. -/
abbrev Body.element (elementValue : Parser Expr) : Parser Expr := do
  let start ← here
  let key ← elementValue
  match ← eat (.mark .colon) with
  | none => return key
  | some colon =>
    let value ← elementValue
    makeExpr (.keyValue (← spanFrom start) key colon value)

def element : Parser Expr := Body.element (elementValue inner)

/-- The braces of a composite literal of some type, which starts at `start`. -/
abbrev Body.literalValue (elementList : Parser (List Expr)) (t : Option Expr) (start : Nat) :
    Parser Expr := do
  let lbrace ← expect (.mark .lbrace)
  let elements ← bracketed elementList
  let rbrace ← expect (.mark .rbrace)
  makeExpr (.composite (← spanFrom start) t lbrace elements rbrace)

def literalValue (t : Option Expr) (start : Nat) : Parser Expr :=
  Body.literalValue (commaListUntil .rbrace (element inner)) t start

/-- One more thing written after an operand that starts at `start`, if there is one. -/
abbrev Body.postfixRound (selectorOrAssertion subscripted call : Expr → Nat → Parser Expr)
    (literalValue : Option Expr → Nat → Parser Expr) (start : Nat) (x : Expr) :
    Parser (Option Expr) := do
  match ← peek with
  | .mark .dot =>
    enter
    some <$> selectorOrAssertion x start
  | .mark .lbrack =>
    enter
    some <$> subscripted x start
  | .mark .lparen =>
    enter
    some <$> call x start
  | .mark .lbrace =>
    if opensLiteral x (← get).exprLevel then
      enter
      some <$> literalValue (some x) start
    else return none
  | _ => return none

def postfixRound (start : Nat) (x : Expr) : Parser (Option Expr) :=
  Body.postfixRound (selectorOrAssertion inner) (subscripted inner) (call inner)
    (literalValue inner) start x

/-- What is read first, and what the rounds after it put on top. -/
abbrev Body.chain (extend : (ε → Reader β (Option ε)) → ε → Reader β ε)
    (round : Nat → ε → Reader β (Option ε)) (first : Reader β ε) : Reader β ε := do
  let start ← here
  extend (round start) (← first)

/-- An operand with all that is written after it. -/
def primary : Parser Expr := Body.chain extend (postfixRound inner) (operand inner)

/-! ## Operators -/

/-- An arrow in front of an operand, or of `chan` in a channel type. -/
abbrev Body.receiveExpr (type operandUnder : Parser Expr) : Parser Expr := do
  let start ← here
  let opPos ← take
  if ← eats (.keyword .chan_) then
    let elem ← type
    makeExpr (.chanType (← spanFrom start) .receive elem)
  else
    let x ← operandUnder
    makeExpr (.unary (← spanFrom start) .receive opPos x)

def receiveExpr : Parser Expr := Body.receiveExpr (type inner) (operandUnder inner)

/-- A star in front of an operand. -/
abbrev Body.starExpr (operandUnder : Parser Expr) : Parser Expr := do
  let start ← here
  let pos ← take
  let x ← operandUnder
  makeExpr (.star (← spanFrom start) pos x)

def starExpr : Parser Expr := Body.starExpr (operandUnder inner)

/-- Another operator in front of an operand. -/
abbrev Body.unaryExpr (operandUnder : Parser Expr) (op : UnaryOp) : Parser Expr := do
  let start ← here
  let opPos ← take
  let x ← operandUnder
  makeExpr (.unary (← spanFrom start) op opPos x)

def unaryExpr (op : UnaryOp) : Parser Expr := Body.unaryExpr (operandUnder inner) op

/-- An operand with the operators in front of it. -/
abbrev Body.unary (receiveExpr starExpr : Reader β ε) (unaryExpr : UnaryOp → Reader β ε)
    (primary : Reader β ε) : Reader β ε := do
  match ← peek with
  | .mark .arrow => receiveExpr
  | .mark .star => starExpr
  | t =>
    match UnaryOp.ofToken? t with
    | some op => unaryExpr op
    | none => primary

def unary : Parser Expr :=
  Body.unary (receiveExpr inner) (starExpr inner) (unaryExpr inner) (primary inner)

/-- One more operator that binds at least as tightly as `least`, and its right operand. -/
abbrev Body.binaryRound (binary : Nat → Parser Expr) (least start : Nat) (left : Expr) :
    Parser (Option Expr) := do
  match BinaryOp.ofToken? (← peek) with
  | none => return none
  | some op =>
    if op.precedence < least then return none
    else
      -- The level is kept to the end of the chain: each operator deepens the tree.
      enter
      let opPos ← take
      let right ← binary (op.precedence + 1)
      return some (← makeExpr (.binary (← spanFrom start) left op opPos right))

def binaryRound (least start : Nat) (left : Expr) : Parser (Option Expr) :=
  Body.binaryRound inner.binary least start left

/-- A binary expression whose operators bind at least as tightly as `least`. -/
def binary (least : Nat) : Parser Expr := Body.chain extend (binaryRound inner least) (unary inner)

end GoGloss.Grammar
