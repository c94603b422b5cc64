/-!
# Spans

A span is a stretch of a text, given by the byte offsets of its two ends in the
UTF-8 form. Nothing orders the ends or ties them to a text: a span may be
reversed or reach past the end, and every use says what it makes of that.
-/

namespace OberonModules

/-- Bytes from `start` up to, and without, `stop`. The default is the empty span at 0. -/
structure Span where
  start : Nat
  stop : Nat
deriving DecidableEq, Inhabited

namespace Span

/-- Number of bytes covered; a reversed span covers none. -/
def length (span : Span) : Nat :=
  span.stop - span.start

def isEmpty (span : Span) : Bool :=
  span.stop ≤ span.start

/-- The smaller start and the larger stop. On spans that are not reversed this is
the least span covering both; on others it need not cover anything. -/
def merge (a b : Span) : Span :=
  ⟨min a.start b.start, max a.stop b.stop⟩

def bounds (span : Span) : Nat × Nat :=
  (span.start, span.stop)

def ofBounds (bounds : Nat × Nat) : Span :=
  ⟨bounds.1, bounds.2⟩

end Span

end OberonModules
