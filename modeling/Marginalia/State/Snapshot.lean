import Marginalia.State.Value

/-!
# State — snapshots and where paths lead in them

A `Snapshot` is the state of a program at one step: the locals of each stack frame, and the heap.
`resolve` follows a path through it, part by part. A path that names something the snapshot does
not hold is dangling, and a `Reason` says what was missing first.
-/

namespace Marginalia

/-- The locals of every frame, outermost first, and the heap. -/
structure Snapshot where
  frames : List (List (String × Value))
  heap : List Value
deriving Repr, Inhabited

/-- Where a path leads. -/
inductive Target where
  | value (v : Value)
  /-- One code unit of a string. -/
  | unit (u : UInt32)
  /-- The elements of a string or array from `start` up to, and without, `stop`. -/
  | slice (whole : Value) (start stop : Nat)
deriving Repr, Inhabited

/-- Why a path leads nowhere. -/
inductive Reason where
  | unknownFrame
  | unknownLocal
  | unknownHeap
  | fieldOutOfRange
  | indexOutOfRange
  /-- The element exists, but the excerpt lacks it. -/
  | elided
  /-- A part that does not apply to what was reached. -/
  | notIndexable
deriving DecidableEq, Repr

def Reason.text : Reason → String
  | .unknownFrame => "no such stack frame"
  | .unknownLocal => "no such local"
  | .unknownHeap => "no such heap allocation"
  | .fieldOutOfRange => "field out of range"
  | .indexOutOfRange => "index out of range"
  | .elided => "element was elided"
  | .notIndexable => "value cannot be projected"

/-- A path that leads nowhere, and why. -/
structure Dangling where
  path : Path
  reason : Reason
deriving DecidableEq, Repr

def Dangling.message (d : Dangling) : String :=
  s!"dangling reference {d.path.text}: {d.reason.text}"

namespace Snapshot

/-- The first local of this name in a frame. -/
def local? (s : Snapshot) (frame : Nat) (name : String) : Option Value :=
  (s.frames[frame]?).bind fun locals => (locals.find? fun l => l.1 = name).map Prod.snd

/-- Where a path starts from. -/
def root (s : Snapshot) : Root → Except Reason Value
  | .stack frame name =>
    if s.frames.length ≤ frame then .error .unknownFrame
    else match s.local? frame name with
      | some v => .ok v
      | none => .error .unknownLocal
  | .heap index =>
    match s.heap[index]? with
    | some v => .ok v
    | none => .error .unknownHeap

end Snapshot

namespace Value

/-- How many elements a string or array has. -/
def length? : Value → Option Nat
  | .string units => some units.length
  | .array items => some items.length
  | _ => none

/-- An element of a string or array, if the excerpt has it. -/
def element (v : Value) (index : Nat) : Except Reason Target :=
  match v with
  | .string units =>
    match units.get? index with
    | some u => .ok (.unit u)
    | none => .error .elided
  | .array items =>
    match items.get? index with
    | some item => .ok (.value item)
    | none => .error .elided
  | _ => .error .notIndexable

/-- Element `n` of the stretch of a string or array that starts at `start` and ends at `stop`, or
where the whole ends. -/
def elementOf (v : Value) (start : Nat) (stop : Option Nat) (n : Nat) : Except Reason Target :=
  match v.length? with
  | none => .error .notIndexable
  | some length =>
    if min (stop.getD length) length ≤ start + n then .error .indexOutOfRange
    else v.element (start + n)

/-- Elements `lo` up to `hi` of the stretch of a string or array that starts at `start` and ends at
`stop`, or where the whole ends. -/
def sliceOf (v : Value) (start : Nat) (stop : Option Nat) (lo hi : Nat) : Except Reason Target :=
  match v.length? with
  | none => .error .notIndexable
  | some length =>
    if start + hi < start + lo ∨ min (stop.getD length) length < start + hi then
      .error .indexOutOfRange
    else .ok (.slice v (start + lo) (start + hi))

end Value

namespace Target

/-- Follows one part of a path. -/
def project : Target → Part → Except Reason Target
  | .value v, .field n =>
    match v.fields? with
    | none => .error .notIndexable
    | some fields =>
      match fields[n]? with
      | some (_, field) => .ok (.value field)
      | none => .error .fieldOutOfRange
  | .value v, .index n => v.elementOf 0 none n
  | .slice v start stop, .index n => v.elementOf start (some stop) n
  | .value v, .slice lo hi => v.sliceOf 0 none lo hi
  | .slice v start stop, .slice lo hi => v.sliceOf start (some stop) lo hi
  | _, _ => .error .notIndexable

/-- Follows the parts of a path in order. -/
def follow (t : Target) : List Part → Except Reason Target
  | [] => .ok t
  | part :: parts =>
    match t.project part with
    | .ok t => t.follow parts
    | .error reason => .error reason

end Target

namespace Snapshot

/-- Where a path leads in a snapshot. -/
def resolve (s : Snapshot) (path : Path) : Except Dangling Target :=
  let target := match s.root path.root with
    | .ok v => (Target.value v).follow path.parts
    | .error reason => .error reason
  target.mapError fun reason => ⟨path, reason⟩

end Snapshot

end Marginalia
