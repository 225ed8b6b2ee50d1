import GoGloss.Proofs.Yields

/-!
# Productions that call one another

The productions of the grammar are definitions that are handed those one level
further in. How many of them are at work at the same time does not show there. Here
every production has a name, and `body call` is its body with `call` in place of each
production it uses, on the same level and further in.

`run ok budget` ties the names together with nothing but a budget: every call takes
one off, and a call that finds the budget spent is refused. The reading is watched on
the way. The cursor has to be `ok` when a production is called and when it returns,
with a result or with a fault, and a round of a repetition that asks for another one
has to have taken a token. Whatever is refused stops the reading as stalled, which is
a fault that no source has.
-/

namespace GoGloss.Grammar

variable {α : Type}

/-! ## Repetitions that are watched -/

/-- Runs a round; when it asks for another one it must have taken a token. -/
def gaining (goesOn : α → Bool) (round : Parser α) : Parser α := do
  let before ← get
  let a ← round
  let after ← get
  if goesOn a && decide (before.rest.length ≤ after.rest.length) then failHere .stalled
  else return a

/-- How lists are read and how chains are built on. -/
structure Loops where
  collect {α : Type} : Parser (Round α) → Parser (List α)
  extend {α : Type} : (α → Parser (Option α)) → α → Parser α

/-- The repetitions of the grammar. -/
def Loops.plain : Loops where
  collect := Grammar.collect
  extend := Grammar.extend

/-- Repetitions where every round that goes on takes a token. -/
def Loops.gaining : Loops where
  collect round := Grammar.collect (Grammar.gaining Round.goesOn round)
  extend round := Grammar.extend fun a => Grammar.gaining Option.isSome (round a)

/-! ## The productions -/

/-- The productions by name, each with the arguments it takes and the type of its result. -/
inductive Production : Type → Type where
  | expr : Production Expr
  | exprList : Production (List Expr)
  | operandUnder : Production Expr
  | type? : Production (Option Expr)
  | type : Production Expr
  | stmt : Production Stmt
  | nameList : Production (List Name)
  -- Types and signatures
  | paramType : Production Expr
  | instantiated (start : Nat) (t : Expr) : Production Expr
  | typeName : Production Expr
  | paramEntry : Production ParamEntry
  | parameters : Production (List Field)
  | results : Production (List Field)
  | signature : Production (List Field × List Field)
  | funcType : Production Expr
  | arrayLength : Production (Option Expr)
  | arrayType : Production Expr
  | fieldNames : Production (List Name)
  | fieldDecl : Production Field
  | structType : Production Expr
  | typeTerm : Production Expr
  | interfaceMethod : Production Field
  | interfaceUnion : Production Field
  | interfaceMember : Production Field
  | interfaceType : Production Expr
  | pointerType : Production Expr
  | mapType : Production Expr
  | chanType : Production Expr
  | receiveType : Production Expr
  | parenType : Production Expr
  | typeHere? : Production (Option Expr)
  -- Blocks
  | stmtList : Production (List Stmt)
  | block : Production Block
  -- Expressions
  | parenExpr : Production Expr
  | funcTypeOrLit : Production Expr
  | operand : Production Expr
  | selectorOrAssertion (x : Expr) (start : Nat) : Production Expr
  | sliceBound : Production (Option Expr)
  | sliceBounds : Production (Option Expr × Option Expr × Bool)
  | subscript : Production (Subscript Expr)
  | subscripted (x : Expr) (start : Nat) : Production Expr
  | call (f : Expr) (start : Nat) : Production Expr
  | elementValue : Production Expr
  | element : Production Expr
  | literalValue (t : Option Expr) (start : Nat) : Production Expr
  | primary : Production Expr
  | receiveExpr : Production Expr
  | starExpr : Production Expr
  | unaryExpr (op : UnaryOp) : Production Expr
  | unary : Production Expr
  | binary (least : Nat) : Production Expr
  -- Declarations
  | importName? : Production (Option ImportName)
  | importSpec : Production Spec
  | initialValues : Production (List Expr)
  | constSpec : Production Spec
  | varSpec : Production Spec
  | typeSpec : Production Spec
  | spec (word : DeclWord) : Production Spec
  | groupDecl : Production Decl
  | funcDecl : Production Decl
  | decl : Production Decl
  -- Statements
  | assignment (start : Nat) (lhs : List Expr) (op : AssignOp) : Production Stmt
  | afterExpr (start : Nat) (x : Expr) : Production Stmt
  | afterExprs (start : Nat) (lhs : List Expr) : Production Stmt
  | simpleStmt : Production Stmt
  | simpleOrLabeled : Production Stmt
  | ifHeader : Production (Option Stmt × Expr)
  | ifStmt : Production Stmt
  | rangeClause (vars : List Expr) (op : AssignOp) : Production (ForHeader Expr Stmt)
  | forStart : Production (Stmt ⊕ ForHeader Expr Stmt)
  | forClauses (first : Option Stmt) : Production (ForHeader Expr Stmt)
  | forHeader : Production (ForHeader Expr Stmt)
  | forStmt : Production Stmt
  | switchHeader : Production (Option Stmt × Option Stmt)
  | caseClause (types : Bool) : Production Stmt
  | commClause : Production Stmt
  | caseBlock (types : Bool) : Production Block
  | commBlock : Production Block
  | switchStmt : Production Stmt
  | selectStmt : Production Stmt
  | callAfter (word : Keyword) : Production Expr
  | goStmt : Production Stmt
  | deferStmt : Production Stmt
  | returnStmt : Production Stmt
  | jumpLabel (kind : Jump) : Production (Option Name)
  | jumpStmt (kind : Jump) : Production Stmt
  | emptyStmt : Production Stmt
  | blockStmt : Production Stmt
  | declStmt : Production Stmt
  | stmtHere : Production Stmt
  -- Whole sources
  | wholeExpr : Production Expr
  | wholeDecl : Production Decl
  | wholeStmt : Production Stmt

namespace Production

/-- The production itself, on top of those one level further in. -/
def reader (inner : Inner) : {α : Type} → Production α → Parser α
  | _, expr => Grammar.expr inner
  | _, exprList => Grammar.exprList inner
  | _, operandUnder => Grammar.operandUnder inner
  | _, type? => Grammar.type? inner
  | _, type => Grammar.type inner
  | _, stmt => Grammar.stmt inner
  | _, nameList => Grammar.nameList
  | _, paramType => Grammar.paramType inner
  | _, instantiated start t => Grammar.instantiated inner start t
  | _, typeName => Grammar.typeName inner
  | _, paramEntry => Grammar.paramEntry inner
  | _, parameters => Grammar.parameters inner
  | _, results => Grammar.results inner
  | _, signature => Grammar.signature inner
  | _, funcType => Grammar.funcType inner
  | _, arrayLength => Grammar.arrayLength inner
  | _, arrayType => Grammar.arrayType inner
  | _, fieldNames => Grammar.fieldNames
  | _, fieldDecl => Grammar.fieldDecl inner
  | _, structType => Grammar.structType inner
  | _, typeTerm => Grammar.typeTerm inner
  | _, interfaceMethod => Grammar.interfaceMethod inner
  | _, interfaceUnion => Grammar.interfaceUnion inner
  | _, interfaceMember => Grammar.interfaceMember inner
  | _, interfaceType => Grammar.interfaceType inner
  | _, pointerType => Grammar.pointerType inner
  | _, mapType => Grammar.mapType inner
  | _, chanType => Grammar.chanType inner
  | _, receiveType => Grammar.receiveType inner
  | _, parenType => Grammar.parenType inner
  | _, typeHere? => Grammar.typeHere? inner
  | _, stmtList => Grammar.stmtList inner
  | _, block => Grammar.block inner
  | _, parenExpr => Grammar.parenExpr inner
  | _, funcTypeOrLit => Grammar.funcTypeOrLit inner
  | _, operand => Grammar.operand inner
  | _, selectorOrAssertion x start => Grammar.selectorOrAssertion inner x start
  | _, sliceBound => Grammar.sliceBound inner
  | _, sliceBounds => Grammar.sliceBounds inner
  | _, subscript => Grammar.subscript inner
  | _, subscripted x start => Grammar.subscripted inner x start
  | _, call f start => Grammar.call inner f start
  | _, elementValue => Grammar.elementValue inner
  | _, element => Grammar.element inner
  | _, literalValue t start => Grammar.literalValue inner t start
  | _, primary => Grammar.primary inner
  | _, receiveExpr => Grammar.receiveExpr inner
  | _, starExpr => Grammar.starExpr inner
  | _, unaryExpr op => Grammar.unaryExpr inner op
  | _, unary => Grammar.unary inner
  | _, binary least => Grammar.binary inner least
  | _, importName? => Grammar.importName?
  | _, importSpec => Grammar.importSpec
  | _, initialValues => Grammar.initialValues inner
  | _, constSpec => Grammar.constSpec inner
  | _, varSpec => Grammar.varSpec inner
  | _, typeSpec => Grammar.typeSpec inner
  | _, spec word => Grammar.spec inner word
  | _, groupDecl => Grammar.groupDecl inner
  | _, funcDecl => Grammar.funcDecl inner
  | _, decl => Grammar.decl inner
  | _, assignment start lhs op => Grammar.assignment inner start lhs op
  | _, afterExpr start x => Grammar.afterExpr inner start x
  | _, afterExprs start lhs => Grammar.afterExprs inner start lhs
  | _, simpleStmt => Grammar.simpleStmt inner
  | _, simpleOrLabeled => Grammar.simpleOrLabeled inner
  | _, ifHeader => Grammar.ifHeader inner
  | _, ifStmt => Grammar.ifStmt inner
  | _, rangeClause vars op => Grammar.rangeClause inner vars op
  | _, forStart => Grammar.forStart inner
  | _, forClauses first => Grammar.forClauses inner first
  | _, forHeader => Grammar.forHeader inner
  | _, forStmt => Grammar.forStmt inner
  | _, switchHeader => Grammar.switchHeader inner
  | _, caseClause types => Grammar.caseClause inner types
  | _, commClause => Grammar.commClause inner
  | _, caseBlock types => Grammar.caseBlock inner types
  | _, commBlock => Grammar.commBlock inner
  | _, switchStmt => Grammar.switchStmt inner
  | _, selectStmt => Grammar.selectStmt inner
  | _, callAfter word => Grammar.callAfter inner word
  | _, goStmt => Grammar.goStmt inner
  | _, deferStmt => Grammar.deferStmt inner
  | _, returnStmt => Grammar.returnStmt inner
  | _, jumpLabel kind => Grammar.jumpLabel kind
  | _, jumpStmt kind => Grammar.jumpStmt kind
  | _, emptyStmt => Grammar.emptyStmt
  | _, blockStmt => Grammar.blockStmt inner
  | _, declStmt => Grammar.declStmt inner
  | _, stmtHere => Grammar.stmtHere inner
  | _, wholeExpr => Body.wholeExpr (Grammar.expr inner)
  | _, wholeDecl => Body.ended skipSemicolons (Grammar.decl inner)
  | _, wholeStmt => Body.ended skipSemicolons (Grammar.stmt inner)

/--
What a production does, with `call` in place of the productions it uses on its own
level, `deeper` in place of those it enters a level for, and `loops` for its repetitions.
-/
def body (loops : Loops) (call deeper : ∀ {β : Type}, Production β → Parser β) :
    {α : Type} → Production α → Parser α
  | _, expr => nested (deeper (binary 1))
  | _, exprList => loops.collect (commaRound (call expr))
  | _, operandUnder => nested (deeper unary)
  | _, type? => nested (deeper typeHere?)
  | _, type => Body.type .type (call type?)
  | _, stmt => nested (deeper stmtHere)
  | _, nameList => loops.collect (commaRound name)
  | _, paramType => Body.paramType (call type)
  | _, instantiated start t =>
    Body.instantiated (call type) (loops.collect (moreRound .rbrack (call type))) start t
  | _, typeName => Body.typeName (fun start t => call (instantiated start t))
  | _, paramEntry => Body.paramEntry (call typeName) (call paramType)
  | _, parameters => Body.parameters (loops.collect (commaUntilRound .rparen (call paramEntry)))
  | _, results => Body.results (call parameters) (call type?)
  | _, signature => Body.signature (call parameters) (call results)
  | _, funcType => Body.funcType (call signature)
  | _, arrayLength => Body.arrayLength (call expr)
  | _, arrayType => Body.arrayType (call arrayLength) (call type)
  | _, fieldNames => Body.fieldNames (call nameList)
  | _, fieldDecl => Body.fieldDecl (call fieldNames) (call type)
  | _, structType => Body.structType (loops.collect (endedRound .rbrace (call fieldDecl)))
  | _, typeTerm => Body.typeTerm (call type)
  | _, interfaceMethod => Body.interfaceMethod (call signature)
  | _, interfaceUnion =>
    Body.interfaceUnion loops.extend (Body.unionRound (call typeTerm)) (call typeTerm)
  | _, interfaceMember => Body.interfaceMember (call interfaceMethod) (call interfaceUnion)
  | _, interfaceType =>
    Body.interfaceType (loops.collect (endedRound .rbrace (call interfaceMember)))
  | _, pointerType => Body.pointerType (call type)
  | _, mapType => Body.mapType (call type)
  | _, chanType => Body.chanType (call type)
  | _, receiveType => Body.receiveType (call type)
  | _, parenType => Body.parenType (call type)
  | _, typeHere? =>
    Body.typeHere? (call typeName) (call funcType) (call arrayType) (call structType)
      (call interfaceType) (call pointerType) (call mapType) (call chanType) (call receiveType)
      (call parenType)
  | _, stmtList => loops.collect (Body.stmtRound (call stmt))
  | _, block => Body.block (call stmtList)
  | _, parenExpr => Body.parenExpr (call expr)
  | _, funcTypeOrLit => Body.funcTypeOrLit (call funcType) (call block)
  | _, operand => Body.operand (call parenExpr) (call funcTypeOrLit) (call type?)
  | _, selectorOrAssertion x start => Body.selectorOrAssertion (call type) x start
  | _, sliceBound => Body.sliceBound (call expr)
  | _, sliceBounds => Body.sliceBounds (call sliceBound)
  | _, subscript =>
    Body.subscript (call expr) (loops.collect (moreRound .rbrack (call expr))) (call sliceBounds)
  | _, subscripted x start => Body.subscripted (call subscript) x start
  | _, Production.call f start => Body.call (loops.collect (Body.argRound (call expr))) f start
  | _, elementValue => Body.elementValue (fun t start => deeper (literalValue t start)) (call expr)
  | _, element => Body.element (call elementValue)
  | _, literalValue t start =>
    Body.literalValue (loops.collect (commaUntilRound .rbrace (call element))) t start
  | _, primary =>
    Body.chain loops.extend
      (Body.postfixRound (fun x start => call (selectorOrAssertion x start))
        (fun x start => call (subscripted x start)) (fun f start => call (Production.call f start))
        fun t start => call (literalValue t start))
      (call operand)
  | _, receiveExpr => Body.receiveExpr (call type) (call operandUnder)
  | _, starExpr => Body.starExpr (call operandUnder)
  | _, unaryExpr op => Body.unaryExpr (call operandUnder) op
  | _, unary =>
    Body.unary (call receiveExpr) (call starExpr) (fun op => call (unaryExpr op)) (call primary)
  | _, binary least =>
    Body.chain loops.extend (Body.binaryRound (fun least => deeper (binary least)) least)
      (call unary)
  | _, importName? => Grammar.importName?
  | _, importSpec => Body.importSpec (call importName?)
  | _, initialValues => Body.initialValues (call exprList)
  | _, constSpec => Body.constSpec (call nameList) (call type?) (call initialValues)
  | _, varSpec => Body.varSpec (call nameList) (call type) (call initialValues)
  | _, typeSpec => Body.typeSpec (call type)
  | _, spec word =>
    Body.spec (call importSpec) (call constSpec) (call varSpec) (call typeSpec) word
  | _, groupDecl =>
    Body.groupDecl (fun word => call (spec word))
      (fun word => loops.collect (endedRound .rparen (call (spec word))))
  | _, funcDecl => Body.funcDecl (call parameters) (call signature) (call block)
  | _, decl => Body.decl (call funcDecl) (call groupDecl)
  | _, assignment start lhs op => Body.assignment (call exprList) start lhs op
  | _, afterExpr start x => Body.afterExpr (call expr) start x
  | _, afterExprs start lhs =>
    Body.afterExprs (fun start lhs op => call (assignment start lhs op))
      (fun start x => call (afterExpr start x)) start lhs
  | _, simpleStmt => Body.simpleStmt (call exprList) (fun start lhs => call (afterExprs start lhs))
  | _, simpleOrLabeled =>
    Body.simpleOrLabeled (call exprList) (call stmt) (fun start lhs => call (afterExprs start lhs))
  | _, ifHeader => Body.ifHeader (call simpleStmt)
  | _, ifStmt => Body.ifStmt (call ifHeader) (call block) (deeper ifStmt)
  | _, rangeClause vars op => Body.rangeClause (call expr) vars op
  | _, forStart =>
    Body.forStart (call exprList) (fun start x => call (afterExpr start x))
      (fun vars op => call (rangeClause vars op))
  | _, forClauses first => Body.forClauses (call simpleStmt) first
  | _, forHeader =>
    Body.forHeader (fun first => call (forClauses first)) (call expr) (call forStart)
  | _, forStmt => Body.forStmt (call forHeader) (call block)
  | _, switchHeader => Body.switchHeader (call simpleStmt)
  | _, caseClause types =>
    Body.caseClause (loops.collect (commaRound (call type))) (call exprList) (call stmtList) types
  | _, commClause => Body.commClause (call simpleStmt) (call stmtList)
  | _, caseBlock types => Body.block (loops.collect (Body.clauseRound (call (caseClause types))))
  | _, commBlock => Body.block (loops.collect (Body.clauseRound (call commClause)))
  | _, switchStmt => Body.switchStmt (call switchHeader) (fun types => call (caseBlock types))
  | _, selectStmt => Body.selectStmt (call commBlock)
  | _, callAfter word => Body.callAfter (call expr) word
  | _, goStmt => Body.goStmt (fun word => call (callAfter word))
  | _, deferStmt => Body.deferStmt (fun word => call (callAfter word))
  | _, returnStmt => Body.returnStmt (call exprList)
  | _, jumpLabel kind => Grammar.jumpLabel kind
  | _, jumpStmt kind => Body.jumpStmt (fun kind => call (jumpLabel kind)) kind
  | _, emptyStmt => Grammar.emptyStmt
  | _, blockStmt => Body.blockStmt (call block)
  | _, declStmt => Body.declStmt (call groupDecl)
  | _, stmtHere =>
    Body.stmtHere (call emptyStmt) (call declStmt) (call goStmt) (call deferStmt) (call returnStmt)
      (call blockStmt) (call ifStmt) (call forStmt) (call switchStmt) (call selectStmt)
      (fun kind => call (jumpStmt kind)) (call simpleOrLabeled)
  | _, wholeExpr => Body.wholeExpr (call expr)
  | _, wholeDecl => Body.ended (loops.extend semicolonRound ()) (call decl)
  | _, wholeStmt => Body.ended (loops.extend semicolonRound ()) (call stmt)

/-- The productions that a level is entered for, one level further in. -/
def within (inner : Inner) : {α : Type} → Production α → Parser α
  | _, binary least => inner.binary least
  | _, unary => inner.unary
  | _, typeHere? => inner.type?
  | _, literalValue t start => inner.literalValue t start
  | _, stmtHere => inner.stmt
  | _, ifStmt => inner.ifStmt
  | _, _ => failHere .tooDeep

/-- The bodies are those of the productions of the grammar. -/
theorem body_reader (inner : Inner) (p : Production α) :
    p.body .plain (reader inner) (within inner) = p.reader inner := by
  cases p <;> rfl

end Production

/-! ## Watching -/

/-- Runs a reader that must be called with the cursor `ok` and leave it `ok`. -/
def watched (ok : Cursor → Prop) [DecidablePred ok] (p : Parser α) : Parser α := fun c =>
  if ok c then
    match p c with
    | .ok a c' => if ok c' then .ok a c' else .error ⟨.stalled, c'.head.span⟩ c'
    | .error e c' => if ok c' then .error e c' else .error ⟨.stalled, c'.head.span⟩ c'
  else .error ⟨.stalled, c.head.span⟩ c

/-- Runs a production, where at most `budget` calls may be at work at the same time. -/
def Production.run (ok : Cursor → Prop) [DecidablePred ok] :
    Nat → {α : Type} → Production α → Parser α
  | 0, _, _ => failHere .stalled
  | budget + 1, _, p => watched ok (p.body .gaining (run ok budget) (run ok budget))

end GoGloss.Grammar
