import GoGloss.Grammar.Block
import GoGloss.Grammar.Types

/-!
# Declarations
-/

namespace GoGloss.Grammar

variable {β ε δ : Type} (inner : Inner)

/-- The name an import gives to its package, if any. An underscore is no name. -/
def importName? : Parser (Option ImportName) := do
  match ← peek with
  | .mark .dot => return some (.dot (← take))
  | .name text =>
    if text = "_" then return some (.blank (← take)) else return some (.name (← name))
  | _ => return none

/-- A line of an `import` declaration. -/
abbrev Body.importSpec (importName? : Parser (Option ImportName)) : Parser Spec := do
  let n ← importName?
  match ← textLiteral? with
  | some path => return .importing n path
  | none => failExpected .importPath

def importSpec : Parser Spec := Body.importSpec importName?

/-- The values after an equals sign, none if there is no such sign. -/
abbrev Body.initialValues (exprList : Reader β (List ε)) : Reader β (List ε) := do
  if ← eats (.mark .assign) then exprList else return []

def initialValues : Parser (List Expr) := Body.initialValues (exprList inner)

/-- A line of a `const` declaration, where type and values may both be left out. -/
abbrev Body.constSpec (nameList : Parser (List Name)) (type? : Parser (Option Expr))
    (initialValues : Parser (List Expr)) : Parser Spec := do
  let names ← nameList
  match ← peek with
  | .eof | .mark .semicolon | .mark .rparen => return .value names none []
  | _ =>
    let t ← type?
    return .value names t (← initialValues)

def constSpec : Parser Spec := Body.constSpec nameList (type? inner) (initialValues inner)

/-- A line of a `var` declaration. -/
abbrev Body.varSpec (nameList : Parser (List Name)) (type : Parser Expr)
    (initialValues : Parser (List Expr)) : Parser Spec := do
  let names ← nameList
  let t ← if ← isAt (.mark .assign) then pure none else some <$> type
  return .value names t (← initialValues)

def varSpec : Parser Spec := Body.varSpec nameList (type inner) (initialValues inner)

/-- A line of a `type` declaration. -/
abbrev Body.typeSpec (type : Parser Expr) : Parser Spec := do
  let n ← name
  let assign ← eat (.mark .assign)
  return .type n assign (← type)

abbrev typeSpec : Parser Spec := Body.typeSpec (type inner)

/-- A line of a declaration that a given keyword starts. -/
abbrev Body.spec (importSpec constSpec varSpec typeSpec : Reader β δ) : DeclWord → Reader β δ
  | .import_ => importSpec
  | .const_ => constSpec
  | .var_ => varSpec
  | .type_ => typeSpec

def spec (word : DeclWord) : Parser Spec :=
  Body.spec importSpec (constSpec inner) (varSpec inner) (typeSpec inner) word

/-- A declaration of one line, or of several in parentheses. -/
abbrev Body.groupDecl (spec : DeclWord → Parser Spec) (specList : DeclWord → Parser (List Spec)) :
    Parser Decl := do
  let start ← here
  match DeclWord.ofToken? (← peek) with
  | none => failExpected .declaration
  | some word =>
    let wordPos ← take
    match ← eat (.mark .lparen) with
    | none =>
      let s ← spec word
      makeDecl (.group (← spanFrom start) word wordPos none [s] none)
    | some lparen =>
      let specs ← specList word
      let rparen ← expect (.mark .rparen)
      makeDecl (.group (← spanFrom start) word wordPos (some lparen) specs (some rparen))

def groupDecl : Parser Decl :=
  Body.groupDecl (spec inner) (fun word => endedListUntil .rparen (spec inner word))

/-- A function or method declaration, with or without a body. -/
abbrev Body.funcDecl (parameters : Parser (List Field))
    (signature : Parser (List Field × List Field)) (block : Parser Block) : Parser Decl := do
  let start ← here
  let func ← expect (.keyword .func_)
  let receiver ← if ← isAt (.mark .lparen) then some <$> parameters else pure none
  let n ← name
  let (params, results) ← signature
  let t ← makeExpr (.funcType (← spanFrom start) (some func) params results)
  let body ← if ← isAt (.mark .lbrace) then some <$> block else pure none
  makeDecl (.func (← spanFrom start) func receiver n t body)

def funcDecl : Parser Decl := Body.funcDecl (parameters inner) (signature inner) (block inner)

/-- A declaration. -/
abbrev Body.decl (funcDecl groupDecl : Reader β δ) : Reader β δ := do
  if ← isAt (.keyword .func_) then funcDecl else groupDecl

def decl : Parser Decl := Body.decl (funcDecl inner) (groupDecl inner)

end GoGloss.Grammar
