/-!
# Lists and plurals in English

`a`, `a and b`, `a, b and c`: commas between all but the last two items, the
word "and" before the last, and no comma in front of it. Every noun the library
uses takes a plain `s` in the plural.
-/

namespace GoGloss.Phrase

/-- What is written in front of item `i` of `total`, counting from zero. -/
def separator (i total : Nat) : String :=
  if i = 0 then "" else if i + 1 < total then ", " else " and "

/-- Joins the items from number `i` on, out of `total`. -/
def joinFrom (i total : Nat) (out : String) : List String → String
  | [] => out
  | item :: items => joinFrom (i + 1) total (out ++ separator i total ++ item) items

/-- The items as one English list. -/
def joinList (items : List String) : String :=
  joinFrom 0 items.length "" items

/-- What is written in front of item `i` when every two items have `sep` between them. -/
def between (sep : String) (i : Nat) : String :=
  if i = 0 then "" else sep

/-- The noun for `count` things. -/
def noun (word : String) (count : Nat) : String :=
  if 1 < count then word ++ "s" else word

end GoGloss.Phrase
