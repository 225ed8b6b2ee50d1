import GoGloss.Grammar.Descent
import GoGloss.Grammar.Parameters

/-!
# Types and signatures

A type is told by its first token, and `typeHere?` gives none where no type
starts. In a parameter list a lone identifier may be a name or a type; which of
the two is settled when the whole list is known (`Grammar.groupParams`), so the
entries are read first and the fields made after.
-/

namespace GoGloss.Grammar

variable {β ε φ : Type} (inner : Inner)

/-! ## Signatures -/

/-- The type of a parameter, which may start with dots. -/
abbrev Body.paramType (type : Parser Expr) : Parser Expr := do
  match ← eat (.mark .ellipsis) with
  | none => type
  | some pos =>
    let elem ← type
    makeExpr (.ellipsis (← spanFrom pos.start) pos (some elem))

def paramType : Parser Expr := Body.paramType (type inner)

/-- An instance `t[a, b]` of what was read from `start` on, if brackets follow. -/
abbrev Body.instantiated (type : Parser Expr) (moreTypes : Parser (List Expr)) (start : Nat)
    (t : Expr) : Parser Expr := do
  if ← eats (.mark .lbrack) then
    let first ← type
    let others ← moreTypes
    discard <| expect (.mark .rbrack)
    let span ← spanFrom start
    match others with
    | [] => makeExpr (.index span t first)
    | _ => makeExpr (.indexList span t (first :: others))
  else return t

def instantiated (start : Nat) (t : Expr) : Parser Expr :=
  Body.instantiated (type inner) (moreUntil .rbrack (type inner)) start t

/-- A type that is a name, perhaps of another package and perhaps instantiated. -/
abbrev Body.typeName (instantiated : Nat → Expr → Parser Expr) : Parser Expr := do
  let start ← here
  let t ← makeExpr (.ident (← name))
  if ← eats (.mark .dot) then
    let member ← name
    let t ← makeExpr (.selector (← spanFrom start) t member)
    instantiated start t
  else instantiated start t

def typeName : Parser Expr := Body.typeName (instantiated inner)

/-- One entry of a parameter list, told by the token after the first. -/
abbrev Body.paramEntry (typeName paramType : Parser Expr) : Parser ParamEntry := do
  let start ← here
  match ← peek with
  | .name _ =>
    match ← peekSecond with
    | .mark .comma | .mark .rparen => return .bare (← name)
    | .mark .dot =>
      let t ← typeName
      return .typed none t (← spanFrom start)
    | _ =>
      let n ← name
      let t ← paramType
      return .typed (some n) t (← spanFrom start)
  | _ =>
    let t ← paramType
    return .typed none t (← spanFrom start)

def paramEntry : Parser ParamEntry := Body.paramEntry (typeName inner) (paramType inner)

/-- A parameter list in parentheses. -/
abbrev Body.parameters (paramEntries : Parser (List ParamEntry)) : Parser (List Field) := do
  discard <| expect (.mark .lparen)
  let entries ← paramEntries
  discard <| expect (.mark .rparen)
  match groupParams entries with
  | .error span => failAt span .mixedParameters
  | .ok fields =>
    -- An identifier that turned out to be a type becomes a node only now.
    (bareTypes entries).forM fun t => discard (makeExpr t)
    fields.mapM makeField

def parameters : Parser (List Field) := Body.parameters (commaListUntil .rparen (paramEntry inner))

/-- The results of a signature: a list in parentheses, one type, or none. -/
abbrev Body.results (parameters : Parser (List Field)) (type? : Parser (Option Expr)) :
    Parser (List Field) := do
  if ← isAt (.mark .lparen) then parameters
  else
    let start ← here
    match ← type? with
    | none => return []
    | some t => return [← makeField ⟨← spanFrom start, [], t, none⟩]

def results : Parser (List Field) := Body.results (parameters inner) (type? inner)

/-- The parameters and the results of a function. -/
abbrev Body.signature (parameters results : Reader β φ) : Reader β (φ × φ) := do
  let params ← parameters
  let results ← results
  return (params, results)

def signature : Parser (List Field × List Field) :=
  Body.signature (parameters inner) (results inner)

/-- A function type. -/
abbrev Body.funcType (signature : Parser (List Field × List Field)) : Parser Expr := do
  let start ← here
  let func ← expect (.keyword .func_)
  let (params, results) ← signature
  makeExpr (.funcType (← spanFrom start) (some func) params results)

def funcType : Parser Expr := Body.funcType (signature inner)

/-! ## Composite types -/

/-- The length between the brackets of an array type; a slice type has none. -/
abbrev Body.arrayLength (expr : Parser Expr) : Parser (Option Expr) := do
  match ← peek with
  | .mark .rbrack => return none
  | .mark .ellipsis =>
    let pos ← take
    return some (← makeExpr (.ellipsis pos pos none))
  | _ => return some (← bracketed (expr))

def arrayLength : Parser (Option Expr) := Body.arrayLength (expr inner)

/-- An array or slice type. -/
abbrev Body.arrayType (arrayLength : Parser (Option Expr)) (type : Parser Expr) : Parser Expr := do
  let start ← here
  discard <| expect (.mark .lbrack)
  let length ← arrayLength
  discard <| expect (.mark .rbrack)
  let elem ← type
  makeExpr (.arrayType (← spanFrom start) length elem)

def arrayType : Parser Expr := Body.arrayType (arrayLength inner) (type inner)

/-- Whether the identifier before a token is an embedded type and no field's name. -/
def followsEmbedded : Token → Bool
  | .mark .dot | .mark .semicolon | .mark .rbrace => true
  | t => t.isTextLiteral

/-- The names of a struct's field, none if it is an embedded type. -/
abbrev Body.fieldNames (nameList : Parser (List Name)) : Parser (List Name) := do
  match ← peek with
  | .mark .star => return []
  | .name _ => if followsEmbedded (← peekSecond) then return [] else nameList
  | _ => failExpected .fieldOrEmbedded

def fieldNames : Parser (List Name) := Body.fieldNames nameList

/-- A field of a struct. -/
abbrev Body.fieldDecl (fieldNames : Parser (List Name)) (type : Parser Expr) : Parser Field := do
  let start ← here
  let names ← fieldNames
  let t ← type
  let tag ← textLiteral?
  makeField ⟨← spanFrom start, names, t, tag⟩

def fieldDecl : Parser Field := Body.fieldDecl fieldNames (type inner)

/-- A struct type. -/
abbrev Body.structType (fieldDecls : Parser (List Field)) : Parser Expr := do
  let start ← here
  discard <| expect (.keyword .struct_)
  discard <| expect (.mark .lbrace)
  let fields ← fieldDecls
  discard <| expect (.mark .rbrace)
  makeExpr (.structType (← spanFrom start) fields)

def structType : Parser Expr := Body.structType (endedListUntil .rbrace (fieldDecl inner))

/-- A term of a union in an interface: a type, perhaps with a tilde in front. -/
abbrev Body.typeTerm (type : Parser Expr) : Parser Expr := do
  let start ← here
  match ← eat (.mark .tilde) with
  | none => type
  | some opPos =>
    let t ← type
    makeExpr (.unary (← spanFrom start) .tilde opPos t)

def typeTerm : Parser Expr := Body.typeTerm (type inner)

/-- One more term of a union that was read from `start` on. -/
abbrev Body.unionRound (typeTerm : Parser Expr) (start : Nat) (left : Expr) :
    Parser (Option Expr) := do
  if ← isAt (.mark .pipe) then
    enter
    let opPos ← take
    let right ← typeTerm
    return some (← makeExpr (.binary (← spanFrom start) left .or opPos right))
  else return none

def unionRound (start : Nat) (left : Expr) : Parser (Option Expr) :=
  Body.unionRound (typeTerm inner) start left

/-- A method of an interface, whose name is ahead. -/
abbrev Body.interfaceMethod (signature : Parser (List Field × List Field)) : Parser Field := do
  let start ← here
  let n ← name
  -- The signature is a type of its own, which starts after the name.
  let sigStart ← here
  let (params, results) ← signature
  let t ← makeExpr (.funcType (← spanFrom sigStart) none params results)
  makeField ⟨← spanFrom start, [n], t, none⟩

def interfaceMethod : Parser Field := Body.interfaceMethod (signature inner)

/-- An embedded element of an interface: a union of terms. -/
abbrev Body.interfaceUnion (extend : (Expr → Parser (Option Expr)) → Expr → Parser Expr)
    (unionRound : Nat → Expr → Parser (Option Expr)) (typeTerm : Parser Expr) : Parser Field := do
  let start ← here
  let t ← extend (unionRound start) (← typeTerm)
  makeField ⟨← spanFrom start, [], t, none⟩

def interfaceUnion : Parser Field := Body.interfaceUnion extend (unionRound inner) (typeTerm inner)

/-- A member of an interface. -/
abbrev Body.interfaceMember (interfaceMethod interfaceUnion : Reader β φ) : Reader β φ := do
  match ← peek, ← peekSecond with
  | .name _, .mark .lparen => interfaceMethod
  | _, _ => interfaceUnion

def interfaceMember : Parser Field :=
  Body.interfaceMember (interfaceMethod inner) (interfaceUnion inner)

/-- An interface type. -/
abbrev Body.interfaceType (interfaceMembers : Parser (List Field)) : Parser Expr := do
  let start ← here
  discard <| expect (.keyword .interface_)
  discard <| expect (.mark .lbrace)
  let members ← interfaceMembers
  discard <| expect (.mark .rbrace)
  makeExpr (.interfaceType (← spanFrom start) members)

def interfaceType : Parser Expr :=
  Body.interfaceType (endedListUntil .rbrace (interfaceMember inner))

/-- A pointer type. -/
abbrev Body.pointerType (type : Parser Expr) : Parser Expr := do
  let start ← here
  let pos ← take
  let t ← type
  makeExpr (.star (← spanFrom start) pos t)

abbrev pointerType : Parser Expr := Body.pointerType (type inner)

/-- A map type. -/
abbrev Body.mapType (type : Parser Expr) : Parser Expr := do
  let start ← here
  discard take
  discard <| expect (.mark .lbrack)
  let key ← type
  discard <| expect (.mark .rbrack)
  let value ← type
  makeExpr (.mapType (← spanFrom start) key value)

def mapType : Parser Expr := Body.mapType (type inner)

/-- A channel type that starts with `chan`. -/
abbrev Body.chanType (type : Parser Expr) : Parser Expr := do
  let start ← here
  discard take
  let dir := if ← eats (.mark .arrow) then ChanDir.send else ChanDir.both
  let elem ← type
  makeExpr (.chanType (← spanFrom start) dir elem)

abbrev chanType : Parser Expr := Body.chanType (type inner)

/-- A channel type that starts with an arrow. -/
abbrev Body.receiveType (type : Parser Expr) : Parser Expr := do
  let start ← here
  discard take
  discard <| expect (.keyword .chan_)
  let elem ← type
  makeExpr (.chanType (← spanFrom start) .receive elem)

abbrev receiveType : Parser Expr := Body.receiveType (type inner)

/-- A type in parentheses. -/
abbrev Body.parenType (type : Parser Expr) : Parser Expr := do
  let start ← here
  let lparen ← take
  let t ← type
  let rparen ← expect (.mark .rparen)
  makeExpr (.paren (← spanFrom start) lparen t rparen)

def parenType : Parser Expr := Body.parenType (type inner)

/-- A type, if one starts here, told by its first token. -/
abbrev Body.typeHere? (typeName funcType arrayType structType interfaceType pointerType mapType
    chanType receiveType parenType : Reader β ε) : Reader β (Option ε) := do
  match ← peek with
  | .name _ => some <$> typeName
  | .keyword .func_ => some <$> funcType
  | .mark .lbrack => some <$> arrayType
  | .keyword .struct_ => some <$> structType
  | .keyword .interface_ => some <$> interfaceType
  | .mark .star => some <$> pointerType
  | .keyword .map_ => some <$> mapType
  | .keyword .chan_ => some <$> chanType
  | .mark .arrow => some <$> receiveType
  | .mark .lparen => some <$> parenType
  | _ => return none

def typeHere? : Parser (Option Expr) :=
  Body.typeHere? (typeName inner) (funcType inner) (arrayType inner) (structType inner)
    (interfaceType inner) (pointerType inner) (mapType inner) (chanType inner) (receiveType inner)
    (parenType inner)

end GoGloss.Grammar
