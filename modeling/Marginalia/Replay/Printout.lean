import Marginalia.Session.Basic

/-!
# Replay — layers and hidden lines in print

What a session tells the world, as lines of text. Places are given by line and column, both counted
from one in machine words. A reply may name any machine word as an offset, and the column of the
largest may be one that has no successor: then the line cannot be printed, and printing breaks off.
-/

namespace Marginalia.Replay

/-- Line and column of an offset, if both can be counted from one. -/
def positionText? (lines : Lines) (offset : Nat) : Option String := do
  let (line, column) := lines.position offset
  let line ← Word.add? line 1
  let column ← Word.add? column 1
  pure s!"{line}:{column}"

/-- A text with blanks before it, up to a width. -/
def padLeft (width : Nat) (text : String) : String :=
  String.ofList (List.replicate (width - text.length) ' ') ++ text

/-- A decoration: where it starts, its span and its label. -/
def decorationLine? (lines : Lines) (d : Decoration) : Option String :=
  (positionText? lines d.span.start).map fun position =>
    s!"  {padLeft 6 position} {d.span.text} {d.annotation.label}"

/-- A stretch that is hidden: where it starts, and its span. -/
def hideLine? (lines : Lines) (span : Span) : Option String :=
  (positionText? lines span.start).map fun position => s!"hide {position} {span.text}"

/-- What a layer shows from now on, line by line. -/
def effectLines (lines : Lines) (revision : Revision) (e : Effect) : List (Option String) :=
  match e.change with
  | .replaced ds =>
    some s!"{e.layer.name} ({ds.length} at {revision.text})" :: ds.map (decorationLine? lines)
  | .cleared => [some s!"{e.layer.name} cleared"]
  | .dropped edited => [some s!"{e.layer.name} dropped, {edited.text} was edited"]

/-- What is to be printed for a notice, line by line. -/
def noticeLines (lines : Lines) : Notice → List (Option String)
  | .dispatch _ t => t.effects.flatMap (effectLines lines t.revision)
  | .hide _ span => [hideLine? lines span]
  | .call _ | .stepIndex _ _ | .report _ _ => []

/-- Prints lines in order: all of them, or those before the first that cannot be printed. -/
def printAll : List (Option String) → Except (List String) (List String)
  | [] => .ok []
  | none :: _ => .error []
  | some line :: lines =>
    match printAll lines with
    | .ok printed => .ok (line :: printed)
    | .error printed => .error (line :: printed)

end Marginalia.Replay
