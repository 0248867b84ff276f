import Marginalia.Number.Word

/-!
# Text — spans of characters

A `Span` is a half-open stretch `start..stop` of a text, counted in characters. It is what every
annotation and every step of an execution points with. Nothing forces the two ends into order: a
span read from a message may be inverted, and then it has no characters and fits in no text.

Offsets are natural numbers. Those that travel in messages stay below `wordBound`, and the one
operation that could leave that range, `Span.shift`, stops at its ends.
-/

namespace Marginalia

/-- The characters from `start` up to, and without, `stop`. -/
structure Span where
  start : Nat
  stop : Nat
deriving DecidableEq, Repr, Inhabited

/-- The end of a span would come before its start. -/
structure SpanError where
  start : Nat
  stop : Nat
deriving DecidableEq, Repr

namespace SpanError

def message (e : SpanError) : String :=
  s!"range end {e.stop} precedes start {e.start}"

end SpanError

namespace Span

/-- The span with these ends, provided they are in order. -/
def ofEnds? (start stop : Nat) : Except SpanError Span :=
  if stop < start then .error ⟨start, stop⟩ else .ok ⟨start, stop⟩

/-- The empty span at an offset. -/
def point (offset : Nat) : Span := ⟨offset, offset⟩

def length (s : Span) : Nat := s.stop - s.start

def isEmpty (s : Span) : Bool := s.stop ≤ s.start

/-- The offset lies inside the span. -/
def covers (s : Span) (offset : Nat) : Bool := s.start ≤ offset && offset < s.stop

/-- The ends of `t` lie between the ends of `s`. -/
def encloses (s t : Span) : Bool := s.start ≤ t.start && t.stop ≤ s.stop

/-- The two spans share a character; an empty span counts when it lies strictly inside the other. -/
def overlaps (s t : Span) : Bool :=
  if s.isEmpty then t.start < s.start && s.start < t.stop
  else if t.isEmpty then s.start < t.start && t.start < s.stop
  else s.start < t.stop && t.start < s.stop

/-- The span is in order and ends inside a text of `length` characters. -/
def fits (s : Span) (length : Nat) : Bool := s.start ≤ s.stop && s.stop ≤ length

theorem start_le_stop_of_fits {s : Span} {length : Nat} (h : s.fits length = true) :
    s.start ≤ s.stop :=
  of_decide_eq_true (Bool.and_eq_true_iff.mp h).1

/-- The least span around both. -/
def join (s t : Span) : Span := ⟨min s.start t.start, max s.stop t.stop⟩

/-- An offset moved by `delta`, held between zero and the largest offset. -/
def shiftOffset (offset : Nat) (delta : Int) : Nat :=
  min ((offset : Int) + delta).toNat (wordBound - 1)

/-- Both ends moved by `delta`. -/
def shift (s : Span) (delta : Int) : Span := ⟨shiftOffset s.start delta, shiftOffset s.stop delta⟩

def text (s : Span) : String := s!"{s.start}..{s.stop}"

end Span

end Marginalia
