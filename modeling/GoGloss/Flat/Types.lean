import GoGloss.Flat.Descent
import GoGloss.Grammar.Types

/-!
# Types and signatures in flat form

The productions for types, with every node put into the arena. A list goes on its
shelf when all its items are there, so the lists inside an item lie before it. The
fields of a parameter list are made when all its entries are known, and a lone
identifier that turns out to be a type becomes a node only then.
-/

namespace GoGloss.Flat

open Grammar

variable (inner : Inner)

/-! ## Parameter lists -/

/-- One entry of a parameter list. -/
inductive ParamDecl where
  /-- A lone identifier. -/
  | bare (name : Ident) (span : Span)
  /-- A type, with a name in front of it or not. -/
  | typed (name : Option Ident) (type : ExprId) (span : Span)

/-- Whether an entry has both a name and a type. -/
def ParamDecl.isNamed : ParamDecl → Bool
  | .typed (some _) _ _ => true
  | _ => false

/-- The field of an entry in a list without names. -/
def unnamedField : ParamDecl → Builder FieldId
  | .bare n span => do
    let t ← allocExpr (.ident n) n.pos
    allocField ⟨.empty, t, none⟩ span
  | .typed _ t span => allocField ⟨.empty, t, none⟩ span

/--
The fields of a named list, where `waiting` holds the lone identifiers since the last
type, each with the span of its entry, and `last` is the span of the entry before.
-/
def namedFields (waiting : List (Ident × Span)) (last : Span) :
    List ParamDecl → Builder (List FieldId)
  | [] => if waiting.isEmpty then return [] else failAt last .mixedParameters
  | .bare n span :: entries => namedFields (waiting ++ [(n, span)]) span entries
  | .typed none _ span :: _ => failAt span .mixedParameters
  | .typed (some n) t span :: entries => do
    let names ← shelveIdents (waiting.map (·.1) ++ [n])
    let start := waiting.head?.elim span.start (·.2.start)
    let f ← allocField ⟨names, t, none⟩ ⟨start, span.stop⟩
    return f :: (← namedFields [] span entries)

/-- The fields of a parameter list. -/
def paramFields (entries : List ParamDecl) : Builder (List FieldId) :=
  if entries.any ParamDecl.isNamed then namedFields [] ⟨0, 0⟩ entries
  else entries.mapM unnamedField

/-! ## Signatures -/

/-- The type of a parameter, which may start with dots. -/
def paramType : Builder ExprId := do
  match ← eat (.mark .ellipsis) with
  | none => type inner
  | some pos =>
    let elem ← type inner
    allocExpr (.ellipsis pos (some elem)) (← spanFrom pos.start)

/-- An instance `t[a, b]` of what was read from `start` on, if brackets follow. -/
def instantiated (start : Nat) (t : ExprId) : Builder ExprId := do
  if ← eats (.mark .lbrack) then
    let first ← type inner
    let others ← moreUntil .rbrack (type inner)
    discard <| expect (.mark .rbrack)
    let span ← spanFrom start
    match others with
    | [] => allocExpr (.index t first) span
    | _ => allocExpr (.indexList t (← shelveExprs (first :: others))) span
  else return t

/-- A type that is a name, perhaps of another package and perhaps instantiated. -/
def typeName : Builder ExprId := do
  let start ← here
  let n ← ident
  let t ← allocExpr (.ident n) n.pos
  if ← eats (.mark .dot) then
    let member ← ident
    let t ← allocExpr (.selector t member) (← spanFrom start)
    instantiated inner start t
  else instantiated inner start t

/-- One entry of a parameter list, told by the token after the first. -/
def paramDecl : Builder ParamDecl := do
  let start ← here
  match ← peek with
  | .name _ =>
    match ← peekSecond with
    | .mark .comma | .mark .rparen =>
      let n ← ident
      return .bare n n.pos
    | .mark .dot =>
      let t ← typeName inner
      return .typed none t (← spanFrom start)
    | _ =>
      let n ← ident
      let t ← paramType inner
      return .typed (some n) t (← spanFrom start)
  | _ =>
    let t ← paramType inner
    return .typed none t (← spanFrom start)

/-- A parameter list in parentheses. -/
def parameters : Builder (ListRef .fields) := do
  discard <| expect (.mark .lparen)
  let entries ← commaListUntil .rparen (paramDecl inner)
  discard <| expect (.mark .rparen)
  shelveFields (← paramFields entries)

/-- The results of a signature: a list in parentheses, one type, or none. -/
def results : Builder (ListRef .fields) := do
  if ← isAt (.mark .lparen) then parameters inner
  else
    let start ← here
    match ← type? inner with
    | none => return .empty
    | some t =>
      let f ← allocField ⟨.empty, t, none⟩ (← spanFrom start)
      shelveFields [f]

/-- The parameters and the results of a function. -/
def signature : Builder (ListRef .fields × ListRef .fields) :=
  Body.signature (parameters inner) (results inner)

/-- A function type. -/
def funcType : Builder ExprId := do
  let start ← here
  let func ← expect (.keyword .func_)
  let (params, results) ← signature inner
  allocExpr (.funcType (some func) params results) (← spanFrom start)

/-! ## Composite types -/

/-- The length between the brackets of an array type; a slice type has none. -/
def arrayLength : Builder (Option ExprId) := do
  match ← peek with
  | .mark .rbrack => return none
  | .mark .ellipsis =>
    let pos ← take
    return some (← allocExpr (.ellipsis pos none) pos)
  | _ => return some (← bracketed (expr inner))

/-- An array or slice type. -/
def arrayType : Builder ExprId := do
  let start ← here
  discard <| expect (.mark .lbrack)
  let length ← arrayLength inner
  discard <| expect (.mark .rbrack)
  let elem ← type inner
  allocExpr (.arrayType length elem) (← spanFrom start)

/-- The names of a struct's field, none if it is an embedded type. -/
def fieldNames : Builder (ListRef .idents) := do
  match ← peek with
  | .mark .star => return .empty
  | .name _ =>
    if followsEmbedded (← peekSecond) then return .empty
    else shelveIdents (← identList)
  | _ => failExpected .fieldOrEmbedded

/-- A field of a struct. -/
def fieldDecl : Builder FieldId := do
  let start ← here
  let names ← fieldNames
  let t ← type inner
  let tag ← textLiteral?
  allocField ⟨names, t, tag.map Lit.of⟩ (← spanFrom start)

/-- A struct type. -/
def structType : Builder ExprId := do
  let start ← here
  discard <| expect (.keyword .struct_)
  discard <| expect (.mark .lbrace)
  let fields ← endedListUntil .rbrace (fieldDecl inner)
  discard <| expect (.mark .rbrace)
  let fields ← shelveFields fields
  allocExpr (.structType fields) (← spanFrom start)

/-- A term of a union in an interface: a type, perhaps with a tilde in front. -/
def typeTerm : Builder ExprId := do
  let start ← here
  match ← eat (.mark .tilde) with
  | none => type inner
  | some opPos =>
    let t ← type inner
    allocExpr (.unary .tilde opPos t) (← spanFrom start)

/-- One more term of a union that was read from `start` on. -/
def unionRound (start : Nat) (left : ExprId) : Builder (Option ExprId) := do
  if ← isAt (.mark .pipe) then
    enter
    let opPos ← take
    let right ← typeTerm inner
    return some (← allocExpr (.binary left .or opPos right) (← spanFrom start))
  else return none

/-- A method of an interface, whose name is ahead. -/
def interfaceMethod : Builder FieldId := do
  let start ← here
  let n ← ident
  let sigStart ← here
  let (params, results) ← signature inner
  let t ← allocExpr (.funcType none params results) (← spanFrom sigStart)
  let names ← shelveIdents [n]
  allocField ⟨names, t, none⟩ (← spanFrom start)

/-- An embedded element of an interface: a union of terms. -/
def interfaceUnion : Builder FieldId := do
  let start ← here
  let t ← extend (unionRound inner start) (← typeTerm inner)
  allocField ⟨.empty, t, none⟩ (← spanFrom start)

/-- A member of an interface. -/
def interfaceMember : Builder FieldId :=
  Body.interfaceMember (interfaceMethod inner) (interfaceUnion inner)

/-- An interface type. -/
def interfaceType : Builder ExprId := do
  let start ← here
  discard <| expect (.keyword .interface_)
  discard <| expect (.mark .lbrace)
  let members ← endedListUntil .rbrace (interfaceMember inner)
  discard <| expect (.mark .rbrace)
  let members ← shelveFields members
  allocExpr (.interfaceType members) (← spanFrom start)

/-- A pointer type. -/
def pointerType : Builder ExprId := do
  let start ← here
  let pos ← take
  let t ← type inner
  allocExpr (.star pos t) (← spanFrom start)

/-- A map type. -/
def mapType : Builder ExprId := do
  let start ← here
  discard take
  discard <| expect (.mark .lbrack)
  let key ← type inner
  discard <| expect (.mark .rbrack)
  let value ← type inner
  allocExpr (.mapType key value) (← spanFrom start)

/-- A channel type that starts with `chan`. -/
def chanType : Builder ExprId := do
  let start ← here
  discard take
  let dir := if ← eats (.mark .arrow) then ChanDir.send else ChanDir.both
  let elem ← type inner
  allocExpr (.chanType dir elem) (← spanFrom start)

/-- A channel type that starts with an arrow. -/
def receiveType : Builder ExprId := do
  let start ← here
  discard take
  discard <| expect (.keyword .chan_)
  let elem ← type inner
  allocExpr (.chanType .receive elem) (← spanFrom start)

/-- A type in parentheses. -/
def parenType : Builder ExprId := do
  let start ← here
  let lparen ← take
  let t ← type inner
  let rparen ← expect (.mark .rparen)
  allocExpr (.paren lparen t rparen) (← spanFrom start)

/-- A type, if one starts here, told by its first token. -/
def typeHere? : Builder (Option ExprId) :=
  Body.typeHere? (typeName inner) (funcType inner) (arrayType inner) (structType inner)
    (interfaceType inner) (pointerType inner) (mapType inner) (chanType inner) (receiveType inner)
    (parenType inner)

end GoGloss.Flat
