import GoGloss.Character.Digit
import GoGloss.Character.Letter

/-!
# First bytes

In UTF-8 the first byte of a character tells how many bytes follow and gives the
leading bits of its code point, so the characters with a given first byte are a
block of consecutive code points. Who has seen only the first byte of a character
knows its block, and can tell a letter from a sign only where the block holds no
letters at all.
-/

namespace GoGloss.Character

/-- The first and the last code point written with the same first byte as `c`. -/
def leadBlock (c : Char) : Nat × Nat :=
  let n := c.toNat
  if n < 0x80 then (n, n)
  else if n < 0x800 then (n / 0x40 * 0x40, n / 0x40 * 0x40 + 0x3F)
  else if n < 0x10000 then (max 0x800 (n / 0x1000 * 0x1000), n / 0x1000 * 0x1000 + 0xFFF)
  else (max 0x10000 (n / 0x40000 * 0x40000), n / 0x40000 * 0x40000 + 0x3FFFF)

/--
Whether a character outside ASCII has its first byte in common with some letter
or decimal digit.
-/
def leadsLikeWord (c : Char) : Bool :=
  0x80 ≤ c.toNat &&
    (meetsRanges letterRanges (leadBlock c) || meetsRanges decimalDigitRanges (leadBlock c))

end GoGloss.Character
