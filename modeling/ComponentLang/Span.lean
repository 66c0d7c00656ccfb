/-!
# Spans of source text

A span names the units `start`, …, `stop - 1` of a source and the line and column where the
first of them stands. Lines and columns count from one; an empty span has `start = stop`.
-/
namespace ComponentLang

structure Span where
  start : Nat
  stop : Nat
  line : Nat
  column : Nat
  deriving DecidableEq, Repr, Inhabited

namespace Span

/-- The span before any source: what a token list without tokens reports. -/
def zero : Span := ⟨0, 0, 0, 0⟩

/-- The span from the start of `a` over all of `a` and `b`. -/
def through (a b : Span) : Span := { a with stop := max b.stop a.stop }

@[simp] theorem through_start (a b : Span) : (a.through b).start = a.start := rfl
@[simp] theorem through_line (a b : Span) : (a.through b).line = a.line := rfl
@[simp] theorem through_column (a b : Span) : (a.through b).column = a.column := rfl

theorem le_through_left (a b : Span) : a.stop ≤ (a.through b).stop := Nat.le_max_right _ _
theorem le_through_right (a b : Span) : b.stop ≤ (a.through b).stop := Nat.le_max_left _ _

end Span

end ComponentLang
