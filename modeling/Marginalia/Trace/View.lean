import Marginalia.Trace.Basic
import Marginalia.Text.Quoted

/-!
# Trace — views of steps

What is shown of a step. A pointer is shown as the path it holds, and one that leads nowhere in
the step as a visible gap; `Step.view` also returns these gaps in the order in which they are met.
An excerpt says where elements are lacking and how many.
-/

namespace Marginalia

/-- What is shown of a value. -/
inductive View where
  | bool (b : Bool)
  | char (c : Char)
  | integer (n : Int)
  | float (x : Binary64)
  /-- A pointer whose target is there. -/
  | reference (path : Path)
  /-- A pointer whose target is not there. -/
  | dangling (path : Path) (reason : Reason)
  | struct (name : String) (fields : List (String × View))
  | enum (name variant : String) (fields : List (String × View))
  /-- The text that is there, how much is lacking, and the true length. -/
  | text (text : String) (elided length : Nat)
  /-- The elements that are there with their indices, and the true length. -/
  | sequence (items : List (Nat × View)) (length : Nat)
  | unallocated
deriving Repr, Inhabited

/-! ## Making views -/

/-- The character of a code unit, or the replacement character for none. -/
def unitChar (u : UInt32) : Char :=
  if h : u.isValidChar then ⟨u, h⟩ else '\ufffd'

/-- The text of an excerpt, with an ellipsis before its last code unit. -/
def Excerpt.shownText (units : Excerpt UInt32) : String :=
  String.ofList (units.front.map unitChar ++
    units.last.toList.flatMap fun u => ['…', unitChar u])

namespace Value

mutual

/-- What is shown of a value in a snapshot, and the pointers in it that lead nowhere. -/
def view (s : Snapshot) : Value → View × List Dangling
  | .bool b => (.bool b, [])
  | .char c => (.char c, [])
  | .uint n => (.integer n, [])
  | .int n => (.integer n, [])
  | .float x => (.float x, [])
  | .pointer path =>
    match s.resolve path with
    | .ok _ => (.reference path, [])
    | .error error => (.dangling path error.reason, [error])
  | .struct name fields =>
    let (fields, errors) := viewFields s fields
    (.struct name fields, errors)
  | .enum name variant fields =>
    let (fields, errors) := viewFields s fields
    (.enum name variant fields, errors)
  | .string units => (.text units.shownText units.elidedCount units.length, [])
  | .array ⟨front, last, length⟩ =>
    let (items, errors) := viewItems s 0 front
    let (lastItem, lastErrors) := viewLast s (length - 1) last
    (.sequence (items ++ lastItem) length, errors ++ lastErrors)
  | .unallocated => (.unallocated, [])

/-- What is shown of fields. -/
def viewFields (s : Snapshot) : List (String × Value) → List (String × View) × List Dangling
  | [] => ([], [])
  | (name, value) :: fields =>
    let (shown, errors) := view s value
    let (others, otherErrors) := viewFields s fields
    ((name, shown) :: others, errors ++ otherErrors)

/-- What is shown of items, the first of them at `index`. -/
def viewItems (s : Snapshot) (index : Nat) : List Value → List (Nat × View) × List Dangling
  | [] => ([], [])
  | value :: items =>
    let (shown, errors) := view s value
    let (others, otherErrors) := viewItems s (index + 1) items
    ((index, shown) :: others, errors ++ otherErrors)

/-- What is shown of the last element of an excerpt. -/
def viewLast (s : Snapshot) (index : Nat) : Option Value → List (Nat × View) × List Dangling
  | none => ([], [])
  | some value =>
    let (shown, errors) := view s value
    ([(index, shown)], errors)

end

end Value

/-- What is shown of a frame. -/
structure FrameView where
  name : String
  location : Span
  locals : List (String × View)
deriving Repr, Inhabited

/-- What is shown of a step. -/
structure StepView where
  index : Nat
  span : Span
  frames : List FrameView
  heap : List View
deriving Repr, Inhabited

/-- What is shown of the locals of a frame. -/
def viewLocals (s : Snapshot) (locals : List Binding) : List (String × View) × List Dangling :=
  Value.viewFields s (locals.map fun l => (l.name, l.value))

/-- What is shown of frames. -/
def viewFrames (s : Snapshot) : List Frame → List FrameView × List Dangling
  | [] => ([], [])
  | frame :: frames =>
    let (locals, errors) := viewLocals s frame.locals
    let (others, otherErrors) := viewFrames s frames
    (⟨frame.name, frame.location, locals⟩ :: others, errors ++ otherErrors)

/-- What is shown of a step, and the pointers in it that lead nowhere, in the order in which they
are shown: the locals frame by frame, then the heap. -/
def Step.view (step : Step) : StepView × List Dangling :=
  let (frames, errors) := viewFrames step.snapshot step.frames
  let (heap, heapErrors) := Value.viewItems step.snapshot 0 step.heap
  (⟨step.index, step.span, frames, heap.map Prod.snd⟩, errors ++ heapErrors)

/-! ## Views as text -/

/-- What stands where elements are lacking. -/
def View.gap (count : Nat) : String := s!"…{count} more"

namespace View

mutual

/-- A view as text. -/
def render : View → String
  | .bool b => if b then "true" else "false"
  | .char c => String.ofList ['\'', c, '\'']
  | .integer n => toString n
  | .float x => Number.viewText x
  | .reference path => "&" ++ path.text
  | .dangling path reason => s!"<dangling {path.text}: {reason.text}>"
  | .struct name fields =>
    name ++ " \x7b " ++ String.intercalate ", " (showFields fields) ++ " \x7d"
  | .enum name variant [] => name ++ "::" ++ variant
  | .enum name variant fields =>
    name ++ "::" ++ variant ++ "(" ++ String.intercalate ", " (showFields fields) ++ ")"
  | .text shown elided length =>
    Text.quote shown ++ (if 0 < elided then s!" ({length} chars)" else "")
  | .sequence items length =>
    "[" ++ String.intercalate ", " (showItems 0 length items) ++ "]" ++
      (if items.length < length then s!" (len {length})" else "")
  | .unallocated => "<unallocated>"

/-- Fields as text. -/
def showFields : List (String × View) → List String
  | [] => []
  | (name, value) :: fields => (name ++ ": " ++ value.render) :: showFields fields

/-- The items of a sequence as text, where the next expected index is `expected`, with a gap
wherever elements are lacking. -/
def showItems (expected length : Nat) : List (Nat × View) → List String
  | [] => if expected < length then [gap (length - expected)] else []
  | (index, item) :: items =>
    (if expected < index then [gap (index - expected)] else []) ++
      item.render :: showItems (index + 1) length items

end

end View

namespace FrameView

/-- A frame as lines of text. -/
def lines (f : FrameView) : List String :=
  s!"  {f.name} @ {f.location.text}" ::
    f.locals.map fun (name, value) => s!"    {name} = {value.render}"

end FrameView

namespace StepView

/-- A step as lines of text. -/
def lines (s : StepView) : List String :=
  s!"step {s.index} at {s.span.text}" :: s.frames.flatMap FrameView.lines ++
    s.heap.zipIdx.map fun (value, i) => s!"  heap#{i} = {value.render}"

/-- A step as text, each line ended. -/
def text (s : StepView) : String := String.join (s.lines.map (· ++ "\n"))

end StepView

end Marginalia
