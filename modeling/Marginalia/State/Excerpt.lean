import Marginalia.Json.Tagged
import Marginalia.Json.Tree

/-!
# State — excerpts of sequences

A long text or array is not sent whole. An `Excerpt` keeps the elements at its front, perhaps the
very last one, and how many there were. `Excerpt.Proper` says what every excerpt made here obeys:
it holds no more elements than there were, and one that lacks none keeps all of them in front.
-/

namespace Marginalia

/-- The elements at the front of a sequence, perhaps its last one, and its length. -/
structure Excerpt (α : Type) where
  front : List α
  last : Option α
  length : Nat
deriving BEq, DecidableEq, Repr, Inhabited

/-- More elements are given than the sequence is said to have. -/
structure ExcerptError where
  included : Nat
  length : Nat
deriving DecidableEq, Repr

def ExcerptError.message (e : ExcerptError) : String :=
  s!"abbreviated sequence claims length {e.length} but includes {e.included} elements"

namespace Excerpt

variable {α β : Type}

/-- A sequence that lacks nothing. -/
def complete (items : List α) : Excerpt α := ⟨items, none, items.length⟩

/-- The first `limit` elements and the last one; everything, if that lacks nothing. -/
def shorten (items : List α) (limit : Nat) : Excerpt α :=
  if items.length ≤ limit + 1 then complete items
  else ⟨items.take limit, items.getLast?, items.length⟩

/-- An excerpt from its parts. One that lacks nothing keeps its last element in front. -/
def ofParts? (front : List α) (last : Option α) (length : Nat) :
    Except ExcerptError (Excerpt α) :=
  let included := front.length + last.toList.length
  if length < included then .error ⟨included, length⟩
  else if included = length then .ok (complete (front ++ last.toList))
  else .ok ⟨front, last, length⟩

def isEmpty (e : Excerpt α) : Bool := e.length == 0

/-- How many elements are there. -/
def includedCount (e : Excerpt α) : Nat := e.front.length + e.last.toList.length

/-- Some element is lacking. -/
def isElided (e : Excerpt α) : Bool := e.includedCount < e.length

/-- How many elements are lacking. -/
def elidedCount (e : Excerpt α) : Nat := e.length - e.includedCount

/-- The element at an index of the whole sequence, if it is there. -/
def get? (e : Excerpt α) (index : Nat) : Option α :=
  match e.front[index]? with
  | some a => some a
  | none => if index + 1 = e.length then e.last else none

/-- The elements that are there, with their indices in the whole sequence. -/
def included (e : Excerpt α) : List (Nat × α) :=
  (e.front.zipIdx.map fun (a, i) => (i, a)) ++ e.last.toList.map fun a => (e.length - 1, a)

/-- Changes every element that is there. -/
def map (f : α → β) (e : Excerpt α) : Excerpt β := ⟨e.front.map f, e.last.map f, e.length⟩

/-- What every excerpt obeys. -/
def Proper (e : Excerpt α) : Prop :=
  e.includedCount ≤ e.length ∧ (e.includedCount = e.length → e.last = none)

instance [DecidableEq α] (e : Excerpt α) : Decidable e.Proper :=
  inferInstanceAs (Decidable (_ ∧ _))

/-! ## As a message -/

/-- The message of an excerpt, from the messages of its elements. -/
def assemble (front : List Json) (last : Option Json) (length : Nat) : Json :=
  if front.length + last.toList.length < length then
    .tagged "Only" (.object
      [("prefix", .array front), ("last", last.getD .null), ("len", .ofNat length)])
  else .tagged "All" (.array front)

def toJson (f : α → Json) (e : Excerpt α) : Json :=
  assemble (e.front.map f) (e.last.map f) e.length

/-- The parts of an excerpt in a message: everything, or a front, a last element and a length. -/
def parts (d : Json.Decoder α) : Json.Kinds (List α × Option α × Nat) :=
  [("All", .single (.map (fun items => (items, none, items.length)) (.list d))),
    ("Only", .fields ((fun front last length => (front, last, length)) <$>
      .required "prefix" (.list d) <*> .optional "last" d <*> .required "len" .size))]

def decoder (d : Json.Decoder α) : Json.Decoder (Excerpt α) :=
  .check (.beside "Wire" (parts d)) fun (front, last, length) =>
    (ofParts? front last length).mapError ExcerptError.message

end Excerpt

end Marginalia
