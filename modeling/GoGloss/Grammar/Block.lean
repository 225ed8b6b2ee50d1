import GoGloss.Grammar.Descent

/-!
# Blocks
-/

namespace GoGloss.Grammar

variable {β σ : Type} (inner : Inner)

/-- Whether a token ends a list of statements. -/
def endsStmtList : Token → Bool
  | .mark .rbrace | .eof | .keyword .case_ | .keyword .default_ => true
  | _ => false

/-- One statement of a list and its end. -/
abbrev Body.stmtRound (stmt : Reader β σ) : Reader β (Round σ) := do
  if endsStmtList (← peek) then return .done
  else
    let s ← stmt
    expectEnd
    return .more s

/-- Statements up to a closing brace or the next clause. -/
def stmtList : Parser (List Stmt) := collect (Body.stmtRound (stmt inner))

/-- Statements in braces. -/
abbrev Body.block (stmtList : Parser (List Stmt)) : Parser Block := do
  let lbrace ← expect (.mark .lbrace)
  let stmts ← stmtList
  let rbrace ← expect (.mark .rbrace)
  return ⟨lbrace, stmts, rbrace⟩

def block : Parser Block := Body.block (stmtList inner)

end GoGloss.Grammar
