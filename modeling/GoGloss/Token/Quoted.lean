import GoGloss.Character.Digit
import GoGloss.Token

/-!
# Quoted text

Strings and runes stand between two equal quotes and are made of items: a plain
character, or a backslash with the character after it. The items alone decide
where the literal ends. Whether the escapes among them mean anything is looked at
afterwards, so a bad escape spoils the literal and nothing after it.
-/

namespace GoGloss.Quoted

open Character

/-- Whether a character is an item on its own: no quote, no backslash, no line break. -/
def isPlain (quote c : Char) : Bool :=
  c ≠ quote && c ≠ '\\' && c ≠ '\n' && c ≠ '\r'

/-- Splits off the longest run of complete items. -/
def items (quote : Char) : List Char → List Char × List Char
  | [] => ([], [])
  | '\\' :: c :: cs =>
    if c = '\n' then ([], '\\' :: c :: cs)
    else
      let (taken, rest) := items quote cs
      ('\\' :: c :: taken, rest)
  | c :: cs =>
    if isPlain quote c then
      let (taken, rest) := items quote cs
      (c :: taken, rest)
    else ([], c :: cs)

/-- The letters that stand for one character each after a backslash. -/
def isSimpleEscape (c : Char) : Bool :=
  c matches 'a' | 'b' | 'f' | 'n' | 'r' | 't' | 'v' | '\\'

/-- How many hexadecimal digits an escape letter asks for. -/
def hexDigits? : Char → Option Nat
  | 'x' => some 2
  | 'u' => some 4
  | 'U' => some 8
  | _ => none

/-- The first `n` characters, if there are as many and all are digits. -/
def digits? (digit : Char → Bool) (n : Nat) (cs : List Char) : Option (List Char) :=
  if n ≤ cs.length && (cs.take n).all digit then some (cs.take n) else none

/--
How many characters of `cs` belong to the escape that a backslash and `c` start;
`none` if it is no escape. Octal escapes stay within a byte, and the two long
forms name a Unicode scalar value.
-/
def escapeLength? (quote c : Char) (cs : List Char) : Option Nat :=
  if isSimpleEscape c || c = quote then some 0
  else if isOctal c then do
    let digits ← digits? isOctal 2 cs
    if digitsValue 8 (c :: digits) ≤ 255 then some 2 else none
  else do
    let n ← hexDigits? c
    let digits ← digits? isHex n cs
    if c = 'x' || (digitsValue 16 digits).isValidChar then some n else none

/-- Whether every backslash of a string's items starts an escape. -/
def wellEscaped (quote : Char) : List Char → Bool
  | [] => true
  | '\\' :: c :: cs => (escapeLength? quote c cs).isSome && wellEscaped quote cs
  | c :: cs => c ≠ '\\' && wellEscaped quote cs

/-- What the items of a complete string amount to. -/
def stringToken (quote : Char) (body : List Char) (text : String) : Token :=
  if wellEscaped quote body then .literal .string text else .illegal .invalidEscape

/--
What the items of a complete rune amount to: they must be one character or one
escape, and an escape that means nothing is the first thing to complain about.
-/
def runeToken (quote : Char) (body : List Char) (text : String) : Token :=
  match body with
  | [_] => .literal .rune text
  | '\\' :: c :: cs =>
    match escapeLength? quote c cs with
    | none => .illegal .invalidEscape
    | some n => if cs.length = n then .literal .rune text else .illegal .invalidToken
  | _ => .illegal .invalidToken

end GoGloss.Quoted
