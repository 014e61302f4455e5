/-!
# Spans

Byte ranges inside the text of one statement.
-/

namespace Primer

/-- The bytes from `start` up to and not including `stop`. -/
structure Span where
  start : Nat
  stop : Nat
  deriving DecidableEq, Repr

namespace Span

/-- The single byte at `pos`. -/
def single (pos : Nat) : Span := ⟨pos, pos + 1⟩

/-- The smallest span that covers both. -/
def union (a b : Span) : Span := ⟨min a.start b.start, max a.stop b.stop⟩

end Span

end Primer
