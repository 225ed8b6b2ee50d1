/-!
# Tokens

The words of Go source: names, literals, the twenty-five keywords, and the marks
(operators and delimiters). A stretch of source that is none of these is still a
token, an illegal one, which remembers what is wrong with it.

Names and literals are shown by their own text. Every other token has a fixed
spelling, its symbol.
-/

namespace GoGloss

/-- The reserved words. -/
inductive Keyword where
  | break_ | case_ | chan_ | const_ | continue_ | default_ | defer_ | else_ | fallthrough_ | for_
  | func_ | go_ | goto_ | if_ | import_ | interface_ | map_ | package_ | range_ | return_
  | select_ | struct_ | switch_ | type_ | var_
deriving DecidableEq, Repr

namespace Keyword

/-- All keywords. -/
def all : List Keyword :=
  [.break_, .case_, .chan_, .const_, .continue_, .default_, .defer_, .else_, .fallthrough_,
   .for_, .func_, .go_, .goto_, .if_, .import_, .interface_, .map_, .package_, .range_, .return_,
   .select_, .struct_, .switch_, .type_, .var_]

/-- The spelling of a keyword. -/
def text : Keyword → String
  | .break_ => "break"
  | .case_ => "case"
  | .chan_ => "chan"
  | .const_ => "const"
  | .continue_ => "continue"
  | .default_ => "default"
  | .defer_ => "defer"
  | .else_ => "else"
  | .fallthrough_ => "fallthrough"
  | .for_ => "for"
  | .func_ => "func"
  | .go_ => "go"
  | .goto_ => "goto"
  | .if_ => "if"
  | .import_ => "import"
  | .interface_ => "interface"
  | .map_ => "map"
  | .package_ => "package"
  | .range_ => "range"
  | .return_ => "return"
  | .select_ => "select"
  | .struct_ => "struct"
  | .switch_ => "switch"
  | .type_ => "type"
  | .var_ => "var"

/-- The keyword with a given spelling. -/
def ofText? (s : String) : Option Keyword :=
  all.find? (·.text == s)

end Keyword

/-- The operators and delimiters. -/
inductive Mark where
  | ellipsis | shlAssign | shrAssign | andNotAssign | plusAssign | minusAssign | starAssign
  | slashAssign | percentAssign | ampAssign | pipeAssign | caretAssign | shl | shr | andNot
  | ampAmp | pipePipe | equalEqual | notEqual | lessEqual | greaterEqual | plusPlus | minusMinus
  | define | arrow | assign | plus | minus | star | slash | percent | amp | pipe | caret | tilde
  | bang | less | greater | lparen | rparen | lbrack | rbrack | lbrace | rbrace | comma
  | semicolon | colon | dot
deriving DecidableEq, Repr

namespace Mark

/-- All marks, longer spellings before shorter ones. -/
def all : List Mark :=
  [.ellipsis, .shlAssign, .shrAssign, .andNotAssign, .plusAssign, .minusAssign, .starAssign,
   .slashAssign, .percentAssign, .ampAssign, .pipeAssign, .caretAssign, .shl, .shr, .andNot,
   .ampAmp, .pipePipe, .equalEqual, .notEqual, .lessEqual, .greaterEqual, .plusPlus, .minusMinus,
   .define, .arrow, .assign, .plus, .minus, .star, .slash, .percent, .amp, .pipe, .caret, .tilde,
   .bang, .less, .greater, .lparen, .rparen, .lbrack, .rbrack, .lbrace, .rbrace, .comma,
   .semicolon, .colon, .dot]

/-- The spelling of a mark. -/
def text : Mark → String
  | .ellipsis => "..."
  | .shlAssign => "<<="
  | .shrAssign => ">>="
  | .andNotAssign => "&^="
  | .plusAssign => "+="
  | .minusAssign => "-="
  | .starAssign => "*="
  | .slashAssign => "/="
  | .percentAssign => "%="
  | .ampAssign => "&="
  | .pipeAssign => "|="
  | .caretAssign => "^="
  | .shl => "<<"
  | .shr => ">>"
  | .andNot => "&^"
  | .ampAmp => "&&"
  | .pipePipe => "||"
  | .equalEqual => "=="
  | .notEqual => "!="
  | .lessEqual => "<="
  | .greaterEqual => ">="
  | .plusPlus => "++"
  | .minusMinus => "--"
  | .define => ":="
  | .arrow => "<-"
  | .assign => "="
  | .plus => "+"
  | .minus => "-"
  | .star => "*"
  | .slash => "/"
  | .percent => "%"
  | .amp => "&"
  | .pipe => "|"
  | .caret => "^"
  | .tilde => "~"
  | .bang => "!"
  | .less => "<"
  | .greater => ">"
  | .lparen => "("
  | .rparen => ")"
  | .lbrack => "["
  | .rbrack => "]"
  | .lbrace => "\x7b"
  | .rbrace => "\x7d"
  | .comma => ","
  | .semicolon => ";"
  | .colon => ":"
  | .dot => "."

/-- The longest mark that the characters start with. -/
def longest? (cs : List Char) : Option Mark :=
  all.find? fun m => m.text.toList.isPrefixOf cs

end Mark

/-- The kinds of literals. -/
inductive LiteralKind where
  | int | float | imaginary | rune | string | rawString
deriving DecidableEq, Repr

namespace LiteralKind

/-- How a literal of some kind is referred to in general. -/
def symbol : LiteralKind → String
  | .int => "INT"
  | .float => "FLOAT"
  | .imaginary => "IMAG"
  | .rune => "CHAR"
  | .string | .rawString => "STRING"

/-- Whether literals of the kind are text. -/
def isText (k : LiteralKind) : Bool :=
  k matches .string | .rawString

end LiteralKind

/-- What can be wrong with a stretch of source that is no token. -/
inductive Flaw where
  | invalidToken
  | invalidNumber
  | invalidEscape
  | unterminatedString
  | unterminatedComment
deriving DecidableEq, Repr, Inhabited

/-- The wording of a flaw. -/
def Flaw.message : Flaw → String
  | .invalidToken => "invalid token"
  | .invalidNumber => "invalid numeric literal"
  | .invalidEscape => "invalid escape"
  | .unterminatedString => "unterminated string"
  | .unterminatedComment => "unterminated comment"

/-- A token, without its place in the source. -/
inductive Token where
  /-- An identifier that is no keyword. -/
  | name (text : String)
  /-- A number, rune or string, with its text as written. -/
  | literal (kind : LiteralKind) (text : String)
  | keyword (word : Keyword)
  | mark (mark : Mark)
  /-- Source that is no token. -/
  | illegal (flaw : Flaw)
  /-- The end of the source. -/
  | eof
deriving DecidableEq, Repr

namespace Token

/-- The fixed spelling of a token, or a word for its class. -/
def symbol : Token → String
  | .name _ => "IDENT"
  | .literal kind _ => kind.symbol
  | .keyword word => word.text
  | .mark m => m.text
  | .illegal _ => "ILLEGAL"
  | .eof => "EOF"

/-- The text of a token: its own for names and literals, else its symbol. -/
def text : Token → String
  | .name text => text
  | .literal _ text => text
  | t => t.symbol

/-- Whether a token is a name or a literal, whose text varies. -/
def hasOwnText : Token → Bool
  | .name _ | .literal .. => true
  | _ => false

/-- Whether a literal of text, such as an import path or a field tag. -/
def isTextLiteral : Token → Bool
  | .literal kind _ => kind.isText
  | _ => false

/--
Whether a line break right after the token ends the statement. This is what puts
a semicolon there.
-/
def endsStatement : Token → Bool
  | .name _ | .literal .. => true
  | .keyword word => (word matches .break_ | .continue_ | .fallthrough_ | .return_)
  | .mark m => (m matches .plusPlus | .minusMinus | .rparen | .rbrack | .rbrace)
  | .illegal _ | .eof => false

end Token

end GoGloss
