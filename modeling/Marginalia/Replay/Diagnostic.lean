import Marginalia.Session.Report
import Marginalia.Text.Lines

/-!
# Replay — diagnostics

A diagnostic is a headline and perhaps a place in the source file. Places are counted here as
editors do: a line also ends with a carriage return, a vertical tab, a form feed, a next-line
character or a line or paragraph separator, and a carriage return with the newline after it ends
one line. A text that ends with the end of a line has no further line, and an empty text has none.
-/

namespace Marginalia.Replay

/-- A headline, and where in the source it points. -/
structure Diagnostic where
  headline : String
  /-- The offset that it points at. -/
  offset : Option Nat
deriving DecidableEq, Repr

/-- A character that ends a line. -/
def endsLine (c : Char) : Bool :=
  ['\n', '\r', '\x0b', '\x0c', '\u0085', '\u2028', '\u2029'].contains c

/-- The offsets at which lines start after the first, in a text whose first character is at
`offset`. -/
def laterLines (offset : Nat) : List Char → List Nat
  | [] => []
  | c :: text =>
    let others := laterLines (offset + 1) text
    if endsLine c && !text.isEmpty && !(c = '\r' && text.head? = some '\n') then
      (offset + 1) :: others
    else others

/-- Line and column of an offset, from one; nothing in a text without lines. -/
def editorPosition? (text : List Char) (offset : Nat) : Option (Nat × Nat) :=
  if text.isEmpty then none
  else
    let (line, column) := Lines.position ⟨laterLines 0 text, text.length⟩ offset
    some (line + 1, column + 1)

namespace Diagnostic

/-- A diagnostic that points at a span, if the span fits the text. -/
def about (headline : String) (text : String) (span : Option Span) : Diagnostic :=
  ⟨headline, (span.filter fun s => s.fits text.length).map Span.start⟩

def ofReport (text : String) (r : Report) : Diagnostic := about r.message text r.span?

/-- The place, in a file of this name. -/
def place? (d : Diagnostic) (name text : String) : Option String := do
  let (line, column) ← editorPosition? text.toList (← d.offset)
  pure s!"[{name}:{line}:{column}]"

/-- The headline as it is printed. -/
def title (d : Diagnostic) : String := s!"Error: {d.headline}"

end Diagnostic

end Marginalia.Replay
