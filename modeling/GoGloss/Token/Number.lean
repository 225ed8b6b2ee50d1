import GoGloss.Character.Digit

/-!
# Numbers

A number is read in two steps. `scan` takes the longest run that could belong to
a number, digits outside the base included, so that a slip such as `0b2` or `09`
is one wrong number and not a number with something stuck to it. `classify` then
says whether the run is an integer, a float, or neither.

In both steps an underscore counts as part of a run of digits; where underscores
may stand is a rule of its own, `separated`.
-/

namespace GoGloss.Number

open Character

/-- The bases a number can be written in. -/
inductive Base where
  | binary | octal | decimal | hexadecimal
deriving DecidableEq, Repr

namespace Base

/-- The base that the start of a number announces. -/
def announced : List Char → Base
  | '0' :: 'x' :: _ | '0' :: 'X' :: _ => .hexadecimal
  | '0' :: 'o' :: _ | '0' :: 'O' :: _ => .octal
  | '0' :: 'b' :: _ | '0' :: 'B' :: _ => .binary
  | _ => .decimal

/-- The digits of the base. -/
def hasDigit (b : Base) (c : Char) : Bool :=
  match b with
  | .binary => c == '0' || c == '1'
  | .octal => isOctal c
  | .decimal => c.isDigit
  | .hexadecimal => isHex c

/-- The digits that stay together with a number of the base, right or wrong. -/
def holdsDigit (b : Base) (c : Char) : Bool :=
  if b = .hexadecimal then isHex c else c.isDigit

/-- The letters that start an exponent in a number of the base. -/
def hasExponent (b : Base) (c : Char) : Bool :=
  match b with
  | .binary | .octal => false
  | .decimal => c == 'e' || c == 'E'
  | .hexadecimal => c == 'p' || c == 'P'

/-- The length of the announcement in front of the digits. -/
def leadLength (b : Base) : Nat :=
  if b = .decimal then 0 else 2

end Base

/-- Splits off a run of digits and underscores. -/
def run (digit : Char → Bool) (cs : List Char) : List Char × List Char :=
  cs.span fun c => c == '_' || digit c

/--
Splits off a point and the digits after it. A point that another point follows
is not part of the number.
-/
def scanFraction (b : Base) : List Char → List Char × List Char
  | '.' :: '.' :: cs => ([], '.' :: '.' :: cs)
  | '.' :: cs => ('.' :: (run b.holdsDigit cs).1, (run b.holdsDigit cs).2)
  | cs => ([], cs)

/-- Splits off the sign of an exponent. -/
def scanSign : List Char → List Char × List Char
  | '+' :: cs => (['+'], cs)
  | '-' :: cs => (['-'], cs)
  | cs => ([], cs)

/-- Splits off an exponent, whichever of the exponent letters starts it. -/
def scanExponent : List Char → List Char × List Char
  | [] => ([], [])
  | c :: cs =>
    if Base.decimal.hasExponent c || Base.hexadecimal.hasExponent c then
      let (sign, cs) := scanSign cs
      let (digits, cs) := run Char.isDigit cs
      (c :: (sign ++ digits), cs)
    else ([], c :: cs)

/-- Splits off the longest run that could belong to a number. -/
def scan (cs : List Char) : List Char × List Char :=
  let b := Base.announced cs
  let lead := cs.take b.leadLength
  let (whole, cs) := run b.holdsDigit (cs.drop b.leadLength)
  let (fraction, cs) := scanFraction b cs
  let (exponent, cs) := scanExponent cs
  (lead ++ whole ++ fraction ++ exponent, cs)

/--
Whether every underscore stands right after a digit (or where `allowed` says one
may stand) and right before a digit.
-/
def separated (digit : Char → Bool) (allowed : Bool) : List Char → Bool
  | [] => true
  | c :: cs =>
    if c = '_' then allowed && cs.head?.any digit && separated digit false cs
    else separated digit (digit c) cs

/-- What a well-formed number is. -/
inductive Kind where
  | int | float
deriving DecidableEq, Repr

/-- Whether an exponent is complete, nothing following it. -/
def completeExponent (cs : List Char) : Bool :=
  let (digits, rest) := run Char.isDigit (scanSign cs).2
  digits.any Char.isDigit && rest.isEmpty

/--
The kind of a number by what follows its mantissa, where `pointed` says whether
the mantissa has a point: an exponent makes a float of it, and a hexadecimal
mantissa with a point needs one.
-/
def kindAfterMantissa (b : Base) (pointed : Bool) : List Char → Option Kind
  | [] =>
    if pointed then (if b = .hexadecimal then none else some .float) else some .int
  | c :: cs => if b.hasExponent c && completeExponent cs then some .float else none

/-- Whether decimal digits with a leading zero, which are read as octal, are octal. -/
def legacyOctal : List Char → Bool
  | '0' :: cs => cs.all fun c => isOctal c || c == '_'
  | _ => true

/-- The kind of a number, or `none` if the text is no number. -/
def classify (lit : List Char) : Option Kind :=
  let b := Base.announced lit
  let body := lit.drop b.leadLength
  if !separated b.holdsDigit (b ≠ .decimal) body then none
  else
    let (whole, rest) := run b.hasDigit body
    let (pointed, fraction, rest) :=
      match rest with
      | '.' :: cs => (true, run b.hasDigit cs)
      | cs => (false, [], cs)
    if pointed && (b = .binary || b = .octal) then none
    else if !(whole ++ fraction).any (· ≠ '_') then none
    else
      match kindAfterMantissa b pointed rest with
      | some .int => if b ≠ .decimal || legacyOctal lit then some .int else none
      | other => other

/--
Whether the text may stand in front of the `i` of an imaginary number: a number,
or any run of decimal digits and underscores.
-/
def mayBeImaginary (lit : List Char) : Bool :=
  (classify lit).isSome || lit.all fun c => c.isDigit || c == '_'

end GoGloss.Number
