import Marginalia.Text.Span

/-!
# Text — lines

`Lines` holds where each line of a text starts. A line ends with its newline, so the spans of the
lines follow one another without gap from the first character to the last, and a newline at the
very end opens one more, empty, line.
-/

namespace Marginalia

/-- The offset of the first character of each line after the first, and the length of the text. -/
structure Lines where
  later : List Nat
  length : Nat
deriving DecidableEq, Repr

namespace Lines

/-- The offsets just after each newline of `text`, whose first character is at `offset`. -/
def startsAfter (offset : Nat) : List Char → List Nat
  | [] => []
  | c :: text =>
    if c = '\n' then (offset + 1) :: startsAfter (offset + 1) text
    else startsAfter (offset + 1) text

def ofChars (text : List Char) : Lines := ⟨startsAfter 0 text, text.length⟩

def ofText (text : String) : Lines := ofChars text.toList

/-- Where each line starts; the first starts at zero. -/
def starts (l : Lines) : List Nat := 0 :: l.later

def count (l : Lines) : Nat := l.starts.length

/-- The span of a line, its newline included. -/
def span? (l : Lines) (line : Nat) : Option Span :=
  l.starts[line]?.map fun start => ⟨start, (l.starts[line + 1]?).getD l.length⟩

/-- Walks on to the last line of `rest` that starts at or before `offset`. -/
def locate (offset line start : Nat) : List Nat → Nat × Nat
  | [] => (line, offset - start)
  | next :: rest =>
    if next ≤ offset then locate offset (line + 1) next rest else (line, offset - start)

/-- Line and column of an offset, both from zero: the last line that starts at or before it, and
the characters between. -/
def position (l : Lines) (offset : Nat) : Nat × Nat := locate offset 0 0 l.later

end Lines

end Marginalia
