import GoGloss.Lexeme

/-!
# Reading lexemes one at a time

A lexer hands out the lexemes of a source on demand. It remembers how far it has
read, whether the last token can end a statement, and the complaints about what
it has handed out that nobody has collected yet; a complaint exists only once its
lexeme has been handed out.

There is no place for a lexeme that waits to be handed out, nor a mark that the
end has been reached. A semicolon is put before a line break or at the end, and
`advance` hands it out in place of what it stands before, so nothing waits from
one call to the next; at the end it disarms the lexer, and a lexer without pieces
that is not armed has nothing more to hand out.
-/

namespace GoGloss

/-- A source that is being read lexeme by lexeme. -/
structure Lexer where
  /-- The pieces that are still to be read. -/
  pieces : List Piece
  /-- The offset of the first of them. -/
  offset : Nat
  /-- Whether the last token can end a statement. -/
  armed : Bool
  /-- The complaints not yet collected, oldest first. -/
  complaints : List Diagnostic

namespace Lexer

/-- A lexer at the start of a source. -/
def ofSource (src : String) : Lexer :=
  ⟨Piece.ofSource src, 0, false, []⟩

/-- The next lexeme of some pieces, what is left of them, where, and whether armed. -/
def advance (armed : Bool) (offset : Nat) :
    List Piece → Option Lexeme × List Piece × Nat × Bool
  | [] => (if armed then some (.lineEnd offset) else none, [], offset, false)
  | p :: ps =>
    let next := offset + byteSize p.text
    match p.token? offset with
    | some token => (some ⟨offset, next, token⟩, ps, next, token.endsStatement)
    | none =>
      match armed, lineBreak? offset p.text with
      | true, some place => (some (.lineEnd place), ps, next, false)
      | _, _ => advance armed next ps

/-- Hands out the next lexeme, or `none` at the end of the source. -/
def next (lx : Lexer) : Option Lexeme × Lexer :=
  let (lexeme?, pieces, offset, armed) := advance lx.armed lx.offset lx.pieces
  let complaints := lx.complaints ++ (lexeme?.bind Lexeme.diagnostic?).toList
  (lexeme?, ⟨pieces, offset, armed, complaints⟩)

/-- Collects the complaints about the lexemes handed out since the last time. -/
def collect (lx : Lexer) : List Diagnostic × Lexer :=
  (lx.complaints, { lx with complaints := [] })

/-- Hands out all the lexemes that are left. -/
def rest (lx : Lexer) : List Lexeme × Lexer :=
  let lexemes := Lexeme.ofPieces lx.armed lx.offset lx.pieces
  let stop := lx.offset + byteSize (lx.pieces.flatMap Piece.text)
  (lexemes, ⟨[], stop, false, lx.complaints ++ lexicalDiagnostics lexemes⟩)

end Lexer

end GoGloss
