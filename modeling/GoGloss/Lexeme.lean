import GoGloss.Diagnostic
import GoGloss.Piece

/-!
# Lexemes

A lexeme is a token together with the bytes it occupies. Blanks and comments
leave no lexeme, but a line break may: after a token that can end a statement, a
semicolon of no width is put where the line ends. A line ends at a line break, at
the first line break inside a comment, or at the end of the source.

A flawed stretch of source never ends a statement, so no semicolon follows it.
-/

namespace GoGloss

/-- A flaw and the bytes it is about. -/
structure LexicalError where
  flaw : Flaw
  span : Span
deriving DecidableEq, Repr, Inhabited

namespace LexicalError

/-- The complaint about a flaw. -/
def diagnostic (e : LexicalError) : Diagnostic :=
  ⟨.lexing, e.span, e.flaw.message⟩

/-- A flaw and its place in one line. -/
def describe (e : LexicalError) : String :=
  e.flaw.message ++ ": Span \x7b start: " ++ toString e.span.start ++ ", end: "
    ++ toString e.span.stop ++ " \x7d"

end LexicalError

/-- A token and the byte offsets where it starts and stops. -/
structure Lexeme where
  start : Nat
  stop : Nat
  token : Token
deriving DecidableEq, Repr

namespace Lexeme

/-- The bytes of a lexeme as a span. -/
def span (l : Lexeme) : Span :=
  Span.of l.start l.stop

/-- A semicolon that stands for the end of a line. -/
def lineEnd (offset : Nat) : Lexeme :=
  ⟨offset, offset, .mark .semicolon⟩

/-- Whether a lexeme is a semicolon that stands for the end of a line. -/
def isLineEnd (l : Lexeme) : Bool :=
  l.token = .mark .semicolon && l.start == l.stop

/-- The complaint about an illegal lexeme. -/
def diagnostic? (l : Lexeme) : Option Diagnostic :=
  match l.token with
  | .illegal flaw => some (LexicalError.diagnostic ⟨flaw, l.span⟩)
  | _ => none

end Lexeme

/-- The offset of the first line break in a text that starts at `offset`. -/
def lineBreak? (offset : Nat) (text : List Char) : Option Nat :=
  if text.any Piece.isLineBreak then
    some (offset + byteSize (text.takeWhile (!Piece.isLineBreak ·)))
  else none

namespace Piece

/-- What a piece at an offset is when read: no lexeme, or one token. -/
def token? (offset : Nat) (p : Piece) : Option Token :=
  match p.kind with
  | .token token => some token
  | .byteOrderMark => if offset = 0 then none else some (.illegal .invalidToken)
  | .blank | .lineBreak | .comment => none

end Piece

/--
The lexemes of the pieces from `offset` on, where `armed` says whether the token
before them can end a statement.
-/
def Lexeme.ofPieces (armed : Bool) (offset : Nat) : List Piece → List Lexeme
  | [] => if armed then [.lineEnd offset] else []
  | p :: ps =>
    let next := offset + byteSize p.text
    match p.token? offset with
    | some token => ⟨offset, next, token⟩ :: ofPieces token.endsStatement next ps
    | none =>
      match armed, lineBreak? offset p.text with
      | true, some place => .lineEnd place :: ofPieces false next ps
      | _, _ => ofPieces armed next ps

/-- The lexemes of a source. -/
def tokenize (src : String) : List Lexeme :=
  Lexeme.ofPieces false 0 (Piece.ofSource src)

/-- The complaints about the illegal ones among some lexemes. -/
def lexicalDiagnostics (ls : List Lexeme) : List Diagnostic :=
  ls.filterMap Lexeme.diagnostic?

end GoGloss
