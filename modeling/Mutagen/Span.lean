import Mutagen.Text.Basic

/-!
# Byte ranges

A span is a half-open range of byte offsets. Two spans clash when they share a
byte; an empty span is an insertion point and clashes with a span that has it
strictly inside, or that starts at the same place.
-/
namespace Mutagen

structure Span where
  start : Nat
  stop : Nat
  deriving DecidableEq, Repr, Inhabited

namespace Span

def len (s : Span) : Nat := s.stop - s.start

def isEmpty (s : Span) : Bool := s.len == 0

/-- Whether `t` lies entirely inside `s`. -/
def contains (s t : Span) : Bool := decide (s.start ≤ t.start) && decide (t.stop ≤ s.stop)

/-- Whether the spans share a byte or an insertion point. -/
def overlaps (s t : Span) : Bool :=
  if s.isEmpty || t.isEmpty then
    s.start == t.start || (decide (t.start < s.start) && decide (s.start < t.stop)) ||
      (decide (s.start < t.start) && decide (t.start < s.stop))
  else decide (s.start < t.stop) && decide (t.start < s.stop)

theorem overlaps_comm (s t : Span) : s.overlaps t = t.overlaps s := by
  have hempty : (s.isEmpty || t.isEmpty) = (t.isEmpty || s.isEmpty) := Bool.or_comm ..
  have hstart : (s.start == t.start) = (t.start == s.start) := by
    rw [Bool.eq_iff_iff]; simp only [beq_iff_eq]; exact eq_comm
  simp only [overlaps, hempty, hstart]
  split
  · rw [Bool.or_assoc, Bool.or_assoc]
    exact congrArg _ (Bool.or_comm ..)
  · exact Bool.and_comm ..

/-- Spans are ordered by their start, then by their end. -/
def order (s t : Span) : Ordering := (compare s.start t.start).then (compare s.stop t.stop)

/-- Text covered by the span, empty when it is not a run of characters. -/
def text (s : Span) (source : Text) : Text := source.slice s.start s.stop

/-- The spelling of a span in messages. -/
def describe (s : Span) : String :=
  "Span \x7b start: " ++ toString s.start ++ ", end: " ++ toString s.stop ++ " \x7d"

end Span
end Mutagen
