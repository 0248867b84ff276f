import Marginalia.Text.Bytes
import Marginalia.Text.Revision
import Marginalia.Text.Span

/-!
# Text — documents and their edits

A document is a text with the edits that led to it. The last `Document.memory` of them are kept, so
that a span taken at an earlier revision can be followed to where its text is now. An edit that
touches the text of the span ends that; one before the span moves it.
-/

namespace Marginalia

/-- A span and the text that is put in its place. -/
structure Edit where
  span : Span
  replacement : String
deriving DecidableEq, Repr, Inhabited

/-- An edit whose span does not fit the document. -/
structure EditError where
  span : Span
  length : Nat
deriving DecidableEq, Repr

def EditError.message (e : EditError) : String :=
  s!"edit {e.span.text} is outside a document of {e.length} characters"

namespace Edit

def insert (offset : Nat) (text : String) : Edit := ⟨.point offset, text⟩

def delete (span : Span) : Edit := ⟨span, ""⟩

def replace (span : Span) (text : String) : Edit := ⟨span, text⟩

/-- Text is added and none removed. -/
def isInsert (e : Edit) : Bool := e.span.isEmpty && !e.replacement.isEmpty

/-- The largest count of characters that a difference can be taken of. -/
def largestCount : Nat := wordBound / 2 - 1

/-- How many characters are added, less those removed. -/
def lengthDelta (e : Edit) : Int :=
  (min e.replacement.length largestCount : Nat) - (min e.span.length largestCount : Nat)

/-- Where a span lies after the edit; nothing, if the edit touches it. -/
def map (e : Edit) (span : Span) : Option Span :=
  if span.overlaps e.span then none
  else if e.span.stop ≤ span.start then some (span.shift e.lengthDelta)
  else some span

/-- The text with the span of the edit replaced. -/
def splice (e : Edit) (text : List Char) : List Char :=
  text.take e.span.start ++ e.replacement.toList ++ text.drop e.span.stop

end Edit

/-- A text, and the edits that led to it. -/
structure Document where
  text : String
  /-- How many characters the text has. -/
  length : Nat
  revision : Revision
  /-- The last edits, each with the revision that it led to, the latest of them first. -/
  log : List (Revision × Edit)
deriving DecidableEq, Repr, Inhabited

namespace Document

/-- How many edits are kept. -/
def memory : Nat := 1024

def ofText (text : String) : Document := ⟨text, text.length, .initial, []⟩

def fingerprint (digest : Digest) (d : Document) : Fingerprint := .of digest d.revision d.text

/-- Makes an edit, if it fits. -/
def apply (d : Document) (e : Edit) : Except EditError Document :=
  if h : e.span.fits d.length then
    let start := Text.byteOffset d.text e.span.start
    let stop := Text.byteOffset d.text e.span.stop
    .ok
      { text := Text.replaceBytes d.text start stop e.replacement
          (Text.cut_byteOffset d.text (Span.start_le_stop_of_fits h))
        length := d.length - e.span.length + e.replacement.length
        revision := d.revision.next
        log := ((d.revision.next, e) :: d.log).take memory }
  else .error ⟨e.span, d.length⟩

/-- The document after an edit, which is the same if the edit does not fit, and the revision that
the edit led to. -/
def edit (d : Document) (e : Edit) : Document × Except EditError Revision :=
  match d.apply e with
  | .ok edited => (edited, .ok edited.revision)
  | .error refused => (d, .error refused)

/-- Follows a span through edits, the latest of them first. -/
def follow (span : Span) : List Edit → Option Span
  | [] => some span
  | e :: earlier => (follow span earlier).bind e.map

/-- The edit that came after a revision is still kept. -/
def remembers (d : Document) (since : Revision) : Bool :=
  match d.log.getLast? with
  | none => false
  | some (oldest, _) => !decide (since.next < oldest)

/-- Where a span, taken at an earlier revision, lies now; nothing, if its text was touched since or
if the edits since then are not all kept. -/
def map? (d : Document) (span : Span) (since : Revision) : Option Span :=
  if d.revision < since then none
  else if since < d.revision && !d.remembers since then none
  else follow span ((d.log.filter fun (revision, _) => since < revision).map Prod.snd)

end Document

end Marginalia
