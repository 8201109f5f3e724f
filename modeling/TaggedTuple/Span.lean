/-!
# Source spans

A span is a pair of byte offsets into a source text, the second one exclusive. Nothing keeps the
offsets in order: a reversed span is empty and has length zero.
-/

namespace TaggedTuple

/-- A stretch of source text, from `start` up to but not including `stop`. -/
structure Span where
  start : Nat
  stop : Nat
  deriving DecidableEq, Repr

namespace Span

/-- The span of generated code. -/
def dummy : Span := ⟨0, 0⟩

instance : Inhabited Span := ⟨dummy⟩

/-- The length in bytes, zero for a reversed span. -/
def length (s : Span) : Nat := s.stop - s.start

/-- Whether the span covers nothing. -/
def isEmpty (s : Span) : Bool := decide (s.stop ≤ s.start)

/-- The least span that covers two spans. -/
def merge (a b : Span) : Span := ⟨min a.start b.start, max a.stop b.stop⟩

/-- The text of a span, as in `3..7`. -/
def text (s : Span) : String := toString s.start ++ ".." ++ toString s.stop

/-- A span is empty exactly when its length is zero. -/
theorem isEmpty_eq_true_iff (s : Span) : s.isEmpty = true ↔ s.length = 0 := by
  simp [isEmpty, length]
  omega

end Span

end TaggedTuple
