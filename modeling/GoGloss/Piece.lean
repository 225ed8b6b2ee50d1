import GoGloss.Character.Lead
import GoGloss.Token.Number
import GoGloss.Token.Quoted

/-!
# Pieces of source

A source is cut into pieces, one after the other and without a gap: blanks, line
breaks, comments, a byte order mark, and the texts of tokens. What the next piece
is depends only on the characters ahead, and it is always the longest one that
starts there. Characters that start nothing are pieces too, illegal tokens, so
the pieces together are the whole source.
-/

namespace GoGloss

/-- What a piece of source is. -/
inductive PieceKind where
  | blank
  | lineBreak
  | comment
  | byteOrderMark
  | token (token : Token)
deriving DecidableEq, Repr

/-- A piece of source and its text. -/
structure Piece where
  kind : PieceKind
  text : List Char
deriving DecidableEq, Repr

namespace Piece

open Character

/-- A piece that is a token. -/
def ofToken (token : Token) (text : List Char) : Piece :=
  ⟨.token token, text⟩

/-- A piece that is no token. -/
def ofFlaw (flaw : Flaw) (text : List Char) : Piece :=
  ofToken (.illegal flaw) text

/-- The characters that separate tokens within a line. -/
def isBlank (c : Char) : Bool :=
  c == ' ' || c == '\t' || c == '\x0c'

/-- The characters that end a line. -/
def isLineBreak (c : Char) : Bool :=
  c == '\n' || c == '\r'

/-- The characters a name starts with. -/
def isNameStart (c : Char) : Bool :=
  c == '_' || isLetter c

/-- The characters a name goes on with. -/
def isNamePart (c : Char) : Bool :=
  isNameStart c || isDecimalDigit c

/-- The characters up to and including the first `*/`. -/
def throughCommentEnd? : List Char → Option (List Char)
  | [] => none
  | '*' :: '/' :: _ => some ['*', '/']
  | c :: cs => (throughCommentEnd? cs).map (c :: ·)

/-- The comment that `/*` starts in front of `cs`. -/
def blockComment (cs : List Char) : Piece :=
  match throughCommentEnd? cs with
  | some body => ⟨.comment, '/' :: '*' :: body⟩
  | none => ofFlaw .unterminatedComment ('/' :: '*' :: cs)

/-- The comment that `//` starts in front of `cs`: the rest of the line. -/
def lineComment (cs : List Char) : Piece :=
  ⟨.comment, '/' :: '/' :: cs.takeWhile (!isLineBreak ·)⟩

/--
The name or keyword that the characters start with. Words are told apart at the
byte after them: where that byte may go on with a name, the word is a name, even
if the character it belongs to is no part of a name after all.
-/
def word (cs : List Char) : Piece :=
  let text := cs.takeWhile isNamePart
  let spelling := String.ofList text
  match Keyword.ofText? spelling with
  | some keyword =>
    if (cs.dropWhile isNamePart).head?.any leadsLikeWord then ofToken (.name spelling) text
    else ofToken (.keyword keyword) text
  | none => ofToken (.name spelling) text

/-- The number that the characters start with, and an `i` right after it. -/
def number (cs : List Char) : Piece :=
  match Number.scan cs with
  | (lit, 'i' :: _) =>
    let text := lit ++ ['i']
    if Number.mayBeImaginary lit then ofToken (.literal .imaginary (String.ofList text)) text
    else ofFlaw .invalidNumber text
  | (lit, _) =>
    match Number.classify lit with
    | some .int => ofToken (.literal .int (String.ofList lit)) lit
    | some .float => ofToken (.literal .float (String.ofList lit)) lit
    | none => ofFlaw .invalidNumber lit

/-- The raw string that a backquote starts in front of `cs`. -/
def rawString (cs : List Char) : Piece :=
  let body := cs.takeWhile (· ≠ '\x60')
  let opened := '\x60' :: body
  if body.length < cs.length then
    let text := opened ++ ['\x60']
    ofToken (.literal .rawString (String.ofList text)) text
  else ofFlaw .invalidToken opened

/--
The quoted literal that `quote` starts in front of `cs`, where `judge` says what
the items of a complete literal amount to. Without the closing quote only the
opening one and the items after it are taken.
-/
def quoted (judge : Char → List Char → String → Token) (quote : Char) (cs : List Char) : Piece :=
  let (body, rest) := Quoted.items quote cs
  if rest.head? = some quote then
    let text := quote :: (body ++ [quote])
    ofToken (judge quote body (String.ofList text)) text
  else ofFlaw .invalidToken (quote :: body)

/-- The rune that a single quote starts in front of `cs`; a rune is never empty. -/
def rune (cs : List Char) : Piece :=
  if cs.head? = some '\x27' then ofFlaw .invalidToken ['\x27']
  else quoted Quoted.runeToken '\x27' cs

/-- The longest mark at `c`, and failing that, `c` alone as a flaw. -/
def mark (c : Char) (cs : List Char) : Piece :=
  match Mark.longest? (c :: cs) with
  | some m => ofToken (.mark m) m.text.toList
  | none => ofFlaw .invalidToken [c]

/-- The piece at the start of the source `c :: cs`. -/
def first (c : Char) (cs : List Char) : Piece :=
  if isBlank c then ⟨.blank, [c]⟩
  else if isLineBreak c then ⟨.lineBreak, [c]⟩
  else if c = '\uFEFF' then ⟨.byteOrderMark, [c]⟩
  else if isNameStart c then word (c :: cs)
  else if c.isDigit || (c = '.' && cs.head?.any Char.isDigit) then number (c :: cs)
  else if c = '\x60' then rawString cs
  else if c = '\x22' then quoted Quoted.stringToken c cs
  else if c = '\x27' then rune cs
  else
    match c, cs with
    | '/', '/' :: cs => lineComment cs
    | '/', '*' :: cs => blockComment cs
    | _, _ => mark c cs

/-- The pieces of a source whose first `skip` characters are already in a piece. -/
def cut : Nat → List Char → List Piece
  | _, [] => []
  | skip + 1, _ :: cs => cut skip cs
  | 0, c :: cs =>
    let piece := first c cs
    piece :: cut (piece.text.length - 1) cs

/-- The pieces of a source. -/
def ofSource (src : String) : List Piece :=
  cut 0 src.toList

end Piece

end GoGloss
