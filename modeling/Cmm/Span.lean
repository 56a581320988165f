/-!
# Spans

Reference model of `Span` and `Span.merge`.

* `Span` — a byte range of the source text: the place of a token, of a tree node, of a report.
* `Span.hull` — the smallest span that covers two others; every compound construct gets the hull of
  its first and last part.
-/

set_option autoImplicit false

namespace Cmm

/-- A byte range of the source text. -/
structure Span where
  offset : Nat
  length : Nat
  deriving DecidableEq, Repr, Inhabited

namespace Span

/-- The first byte after the span. -/
def stop (s : Span) : Nat := s.offset + s.length

/-- The smallest span that covers both. -/
def hull (a b : Span) : Span :=
  ⟨min a.offset b.offset, max a.stop b.stop - min a.offset b.offset⟩

@[simp] theorem offset_hull (a b : Span) : (a.hull b).offset = min a.offset b.offset := rfl

@[simp] theorem stop_hull (a b : Span) : (a.hull b).stop = max a.stop b.stop := by
  simp only [hull, stop]
  omega

end Span

end Cmm
