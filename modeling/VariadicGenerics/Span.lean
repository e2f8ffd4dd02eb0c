/-!
# Spans

A span is a half-open range of byte offsets in a source file. Offsets are 32-bit numbers, so a
span built from a start and a length stops at the largest offset. The span from zero to zero
points nowhere, and merging treats it as absent.

Nothing in the theory computes with spans. They are carried along: an argument has the span of the
text that it was written as, and a diagnostic copies the span of the argument that it blames, or
that of the whole site. What is proved about blame is therefore stated as an equation between spans.
-/

namespace VariadicGenerics

/-- The largest byte offset. -/
def maxOffset : Nat := 4294967295

/-- The bytes from `start` up to, but not including, `stop`. -/
structure Span where
  start : Nat
  stop : Nat
  deriving DecidableEq, Repr, Inhabited

namespace Span

/-- The span that points nowhere. -/
def dummy : Span := ⟨0, 0⟩

/-- The span of `length` bytes from `start`, cut at the largest offset. -/
def ofLength (start length : Nat) : Span := ⟨start, min (start + length) maxOffset⟩

/-- Number of bytes covered; a span that stops before it starts covers none. -/
def length (s : Span) : Nat := s.stop - s.start

/-- Whether no byte is covered. -/
def isEmpty (s : Span) : Bool := decide (s.stop ≤ s.start)

/-- Whether the span points nowhere. -/
def isDummy (s : Span) : Bool := decide (s.start = 0 ∧ s.stop = 0)

/-- The smallest span that covers both; a span that points nowhere adds nothing. -/
def merge (s t : Span) : Span :=
  if s.isDummy then t
  else if t.isDummy then s
  else ⟨min s.start t.start, max s.stop t.stop⟩

end Span

end VariadicGenerics
