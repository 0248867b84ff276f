import Marginalia.Overlay.Layer
import Marginalia.Text.Revision

/-!
# Overlay — the store of layers

The store holds what each layer shows. A change names one layer, touches no other, counts up the
generation of the layer and leaves an `Effect` that says what the layer shows from then on.

Decorations come at the places of the revision that they were computed for. `Store.replaceAll`
moves them to where the text is now; if one of them has no place any more, none of them is kept and
the layer is left empty.
-/

namespace Marginalia

/-- Where a span, taken at a revision, lies now; nothing, if its text was edited since. -/
abbrev Mapping := Span → Revision → Option Span

/-- The mapping of a text that is still at this revision. -/
def Mapping.still (current : Revision) : Mapping := fun span since =>
  if since = current then some span else none

/-- What a layer shows, and how often that was changed. -/
structure Slot where
  decorations : List Decoration
  generation : Nat
deriving DecidableEq, Repr

namespace Slot

/-- A layer that was never changed. -/
def initial : Slot := ⟨[], 0⟩

/-- The layer changed to show these decorations. -/
def put (s : Slot) (decorations : List Decoration) : Slot := ⟨decorations, s.generation + 1⟩

end Slot

/-- How a layer was changed. -/
inductive Change where
  | replaced (decorations : List Decoration)
  | cleared
  /-- Decorations were given up, since the text at `edited` is no longer the same. -/
  | dropped (edited : Span)
deriving DecidableEq, Repr

/-- A change of one layer, and its generation afterwards. -/
structure Effect where
  layer : Layer
  generation : Nat
  change : Change
deriving DecidableEq, Repr

/-- What the layer shows afterwards. -/
def Effect.decorations (e : Effect) : List Decoration :=
  match e.change with
  | .replaced decorations => decorations
  | .cleared | .dropped _ => []

/-- Changes at one revision of the text. -/
structure Transaction where
  revision : Revision
  effects : List Effect
deriving DecidableEq, Repr

/-- What every layer shows. -/
structure Store where
  loans : Slot
  uses : Slot
  statements : Slot
  markers : Slot
deriving DecidableEq, Repr

/-- The decorations at their places now, or the span of the first that has none. -/
def moveAll (f : Span → Option Span) : List Decoration → Except Span (List Decoration)
  | [] => .ok []
  | d :: ds =>
    match f d.span with
    | none => .error d.span
    | some span =>
      match moveAll f ds with
      | .error edited => .error edited
      | .ok moved => .ok ({ d with span } :: moved)

namespace Store

/-- Nothing is shown. -/
def initial : Store := ⟨.initial, .initial, .initial, .initial⟩

def slot (s : Store) : Layer → Slot
  | .loans => s.loans
  | .uses => s.uses
  | .statements => s.statements
  | .markers => s.markers

/-- The store with another slot for one layer. -/
def setSlot (s : Store) (layer : Layer) (slot : Slot) : Store :=
  match layer with
  | .loans => { s with loans := slot }
  | .uses => { s with uses := slot }
  | .statements => { s with statements := slot }
  | .markers => { s with markers := slot }

/-- What a layer shows. -/
def layer (s : Store) (l : Layer) : List Decoration := (s.slot l).decorations

def generation (s : Store) (l : Layer) : Nat := (s.slot l).generation

/-- The bodies that a layer shows something of, ascending. -/
def units (s : Store) (l : Layer) : List Nat :=
  (((s.layer l).filterMap Decoration.unit).mergeSort (· ≤ ·)).eraseReps

def isEmpty (s : Store) : Bool := Layer.all.all fun l => (s.layer l).isEmpty

/-- Makes a layer show what a change says. -/
def change (s : Store) (l : Layer) (c : Change) : Store × Effect :=
  let effect : Effect := ⟨l, s.generation l + 1, c⟩
  (s.setSlot l ((s.slot l).put effect.decorations), effect)

/-- Makes a layer show decorations that were computed for a revision. -/
def replaceAll (s : Store) (l : Layer) (entries : List Decoration) (computedAt : Revision)
    (mapping : Mapping) : Store × Effect :=
  match moveAll (mapping · computedAt) entries with
  | .ok moved => s.change l (.replaced moved)
  | .error edited => s.change l (.dropped edited)

/-- Makes layers show decorations that were computed for a revision, one layer after the other. -/
def replaceEach (s : Store) (layers : List (Layer × List Decoration)) (computedAt : Revision)
    (mapping : Mapping) : Store × List Effect :=
  match layers with
  | [] => (s, [])
  | (l, entries) :: layers =>
    let (s, effect) := s.replaceAll l entries computedAt mapping
    let (s, effects) := s.replaceEach layers computedAt mapping
    (s, effect :: effects)

/-- Empties a layer. -/
def clear (s : Store) (l : Layer) : Store × Effect := s.change l .cleared

/-- Empties the layers of a list in order. -/
def clearEach (s : Store) : List Layer → Store × List Effect
  | [] => (s, [])
  | l :: ls =>
    let (s, effect) := s.clear l
    let (s, effects) := s.clearEach ls
    (s, effect :: effects)

/-- Empties every layer. -/
def clearAll (s : Store) : Store × List Effect := s.clearEach Layer.all

end Store

end Marginalia
