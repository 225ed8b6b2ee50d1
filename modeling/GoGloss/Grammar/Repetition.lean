import GoGloss.Grammar.Cursor

/-!
# Repetition

Lists and chains of operators are read round by round. A round that asks for
another one has taken at least one token, so there are never more rounds than
lexemes ahead, and a repetition may count its rounds off against them. Should a
round ever go on without taking a token, the count runs out and the repetition
stops with the fault `stalled`.
-/

namespace GoGloss.Grammar

variable {α β : Type}

/-- What one round of reading a list comes to. -/
inductive Round (α : Type) where
  /-- There is nothing more. -/
  | done
  /-- One item, and nothing after it. -/
  | last (item : α)
  /-- One item, and another round after it. -/
  | more (item : α)

/-- Reads items for at most as many more rounds as `clock` has lexemes. -/
def collectFor (round : Reader β (Round α)) (clock : List Lexeme) (items : List α) :
    Reader β (List α) := do
  match ← round with
  | .done => return items.reverse
  | .last item => return (item :: items).reverse
  | .more item =>
    match clock with
    | [] => failHere .stalled
    | _ :: clock => collectFor round clock (item :: items)

/-- Reads the items of a list, round by round. -/
def collect (round : Reader β (Round α)) : Reader β (List α) := do
  collectFor round (← get).rest []

/-- Builds on `a` for at most as many more rounds as `clock` has lexemes. -/
def extendFor (round : α → Reader β (Option α)) (clock : List Lexeme) (a : α) : Reader β α := do
  match ← round a with
  | none => return a
  | some b =>
    match clock with
    | [] => failHere .stalled
    | _ :: clock => extendFor round clock b

/-- Builds on what was read so far, round by round, until a round adds nothing. -/
def extend (round : α → Reader β (Option α)) (a : α) : Reader β α := do
  extendFor round (← get).rest a

/-- One item, and another round if a comma follows it. -/
def commaRound (item : Reader β α) : Reader β (Round α) := do
  let a ← item
  if ← eats (.mark .comma) then return .more a else return .last a

/-- One or more items with commas between them. -/
def commaList (item : Reader β α) : Reader β (List α) :=
  collect (commaRound item)

/-- One item up to a closing mark, and another round if a comma follows it. -/
abbrev commaUntilRound (close : Mark) (item : Reader β α) : Reader β (Round α) := do
  match ← peek with
  | .eof => return .done
  | t => if t = .mark close then return .done else commaRound item

/-- Items with commas between them and perhaps after the last, up to a closing mark. -/
def commaListUntil (close : Mark) (item : Reader β α) : Reader β (List α) :=
  collect (commaUntilRound close item)

/-- One more item if a comma is ahead that is not the last thing before a closing mark. -/
abbrev moreRound (close : Mark) (item : Reader β α) : Reader β (Round α) := do
  if ← eats (.mark .comma) then
    if ← isAt (.mark close) then return .done else return .more (← item)
  else return .done

/-- The items after the first of a list that may end with a comma. -/
def moreUntil (close : Mark) (item : Reader β α) : Reader β (List α) :=
  collect (moreRound close item)

/-- One item that ends like a statement, unless a closing mark is ahead. -/
abbrev endedRound (close : Mark) (item : Reader β α) : Reader β (Round α) := do
  match ← peek with
  | .eof => return .done
  | t =>
    if t = .mark close then return .done
    else
      let a ← item
      expectEnd
      return .more a

/-- Items that each end like a statement, up to a closing mark. -/
def endedListUntil (close : Mark) (item : Reader β α) : Reader β (List α) :=
  collect (endedRound close item)

/-- One or more identifiers with commas between them. -/
def nameList : Parser (List Name) :=
  commaList name

end GoGloss.Grammar
