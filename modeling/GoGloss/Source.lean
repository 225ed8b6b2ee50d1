/-!
# Source text by bytes

Offsets into a source count bytes of its UTF-8 form, while the text itself is
read as characters. This module holds the bridge: how many bytes a run of
characters takes, and which characters stand between two byte offsets.

An offset may fall past the end or inside a character, so cutting is partial;
`slice?` answers only when both offsets are boundaries of the text.
-/

namespace GoGloss

/-- The number of bytes the characters take in UTF-8. -/
def byteSize : List Char → Nat
  | [] => 0
  | c :: cs => c.utf8Size + byteSize cs

/-- What is left after the first `n` bytes, if they end between characters. -/
def dropBytes? : Nat → List Char → Option (List Char)
  | 0, cs => some cs
  | _ + 1, [] => none
  | n + 1, c :: cs =>
    if c.utf8Size ≤ n + 1 then dropBytes? (n + 1 - c.utf8Size) cs else none

/-- The characters of the first `n` bytes, if they end between characters. -/
def takeBytes? : Nat → List Char → Option (List Char)
  | 0, _ => some []
  | _ + 1, [] => none
  | n + 1, c :: cs =>
    if c.utf8Size ≤ n + 1 then (takeBytes? (n + 1 - c.utf8Size) cs).map (c :: ·) else none

/-- The characters from byte `start` up to byte `stop`. -/
def slice? (cs : List Char) (start stop : Nat) : Option (List Char) :=
  if start ≤ stop then (dropBytes? start cs).bind (takeBytes? (stop - start)) else none

end GoGloss
