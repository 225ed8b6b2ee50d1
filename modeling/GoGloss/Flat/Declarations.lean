import GoGloss.Flat.Types
import GoGloss.Grammar.Declarations

/-!
# Declarations in flat form

A line of a declaration is no node. It is kept until all lines are read, and then
lies on the shelf of lines.
-/

namespace GoGloss.Flat

open Grammar

variable (inner : Inner)

/-- The name an import gives to its package, if any. An underscore is no name. -/
def importIdent? : Builder (Option ImportIdent) := do
  match ← peek with
  | .mark .dot => return some (.dot (← take))
  | .name text =>
    if text = "_" then return some (.blank (← take)) else return some (.name (← ident))
  | _ => return none

/-- A line of an `import` declaration. -/
def importSpec : Builder SpecNode := do
  let n ← importIdent?
  match ← textLiteral? with
  | some path => return .importing n (Lit.of path)
  | none => failExpected .importPath

/-- The values after an equals sign, none if there is no such sign. -/
def initialValues : Builder (List ExprId) :=
  Body.initialValues (exprList inner)

/-- A line of names, perhaps of a type and perhaps with values. -/
def valueSpec (names : List Ident) (t : Option ExprId) (values : List ExprId) :
    Builder SpecNode := do
  let names ← shelveIdents names
  let values ← shelveExprs values
  return .value names t values

/-- A line of a `const` declaration, where type and values may both be left out. -/
def constSpec : Builder SpecNode := do
  let names ← identList
  match ← peek with
  | .eof | .mark .semicolon | .mark .rparen => valueSpec names none []
  | _ =>
    let t ← type? inner
    valueSpec names t (← initialValues inner)

/-- A line of a `var` declaration. -/
def varSpec : Builder SpecNode := do
  let names ← identList
  let t ← if ← isAt (.mark .assign) then pure none else some <$> type inner
  valueSpec names t (← initialValues inner)

/-- A line of a `type` declaration. -/
def typeSpec : Builder SpecNode := do
  let n ← ident
  let assign ← eat (.mark .assign)
  return .type n assign (← type inner)

/-- A line of a declaration that a given keyword starts. -/
def spec (word : DeclWord) : Builder SpecNode :=
  Body.spec importSpec (constSpec inner) (varSpec inner) (typeSpec inner) word

/-- A declaration of one line, or of several in parentheses. -/
def groupDecl : Builder DeclId := do
  let start ← here
  match DeclWord.ofToken? (← peek) with
  | none => failExpected .declaration
  | some word =>
    let wordPos ← take
    match ← eat (.mark .lparen) with
    | none =>
      let s ← spec inner word
      let specs ← shelveSpecs [s]
      allocDecl (.group word wordPos none specs none) (← spanFrom start)
    | some lparen =>
      let specs ← endedListUntil .rparen (spec inner word)
      let rparen ← expect (.mark .rparen)
      let specs ← shelveSpecs specs
      allocDecl (.group word wordPos (some lparen) specs (some rparen)) (← spanFrom start)

/-- A function or method declaration, with or without a body. -/
def funcDecl : Builder DeclId := do
  let start ← here
  let func ← expect (.keyword .func_)
  let receiver ← if ← isAt (.mark .lparen) then some <$> parameters inner else pure none
  let n ← ident
  let (params, results) ← signature inner
  let t ← allocExpr (.funcType (some func) params results) (← spanFrom start)
  let body ← if ← isAt (.mark .lbrace) then some <$> block inner else pure none
  allocDecl (.func func receiver n t body) (← spanFrom start)

/-- A declaration. -/
def decl : Builder DeclId :=
  Body.decl (funcDecl inner) (groupDecl inner)

end GoGloss.Flat
