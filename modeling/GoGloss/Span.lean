import GoGloss.Source

/-!
# Spans

A span is the range of bytes a token or a node of the tree occupies. Offsets
are recorded in 32 bits, so `Span.of` clamps whatever does not fit: a span made
for an enormous source is then too short, never negative and never wrapped
around.
-/

namespace GoGloss

/-- A range of bytes of a source: from `start` up to, not including, `stop`. -/
structure Span where
  start : Nat
  stop : Nat
deriving DecidableEq, Repr, Inhabited

namespace Span

/-- The largest offset a span records: the largest number of 32 bits. -/
def maxOffset : Nat := 0xFFFFFFFF

/-- The span between two offsets, each clamped to `maxOffset`. -/
def of (start stop : Nat) : Span :=
  ⟨min start maxOffset, min stop maxOffset⟩

/-- The empty span at an offset. -/
def point (offset : Nat) : Span :=
  of offset offset

/-- The smallest span that covers both. -/
def cover (a b : Span) : Span :=
  ⟨min a.start b.start, max a.stop b.stop⟩

/-- The number of bytes covered; none if the span is reversed. -/
def size (s : Span) : Nat :=
  s.stop - s.start

/-- Whether no byte is covered. -/
def isEmpty (s : Span) : Bool :=
  s.size == 0

/--
The source text under a span, and the empty text when the span is reversed,
reaches past the end or cuts a character.
-/
def text (src : String) (s : Span) : String :=
  match slice? src.toList s.start s.stop with
  | some cs => String.ofList cs
  | none => ""

end Span

end GoGloss
