import Marginalia.Json.Decoder

/-!
# Json — fields of a record

A record is written as an object, its fields in any order and beside keys that mean nothing, or as
an array of its fields in their own order. `Fields α` describes the fields that make an `α`; two
descriptions combine as functions do, so a record is its constructor applied to its fields.

In an object each field is decoded by itself and every fault keeps its position among the members.
Of all of them the first in reading order is reported; fields that were never given come after
those, in the order of the record.
-/

namespace Marginalia.Json

/-- A result whose fault knows its position among the members of an object. -/
abbrev Placed (α : Type) := Except (Nat × Fault) α

namespace Placed

/-- Both results, or the earlier of their faults. -/
def both (f : Placed (α → β)) (a : Placed α) : Placed β :=
  match f, a with
  | .ok f, .ok a => .ok (f a)
  | .error e, .ok _ => .error e
  | .ok _, .error e => .error e
  | .error e, .error e₂ => .error (if e₂.1 < e.1 then e₂ else e)

/-- The fault, without its position. -/
def result : Placed α → Except Fault α
  | .ok a => .ok a
  | .error (_, fault) => .error fault

/-- Gives every fault of a result one position. -/
def ofResult (position : Nat) : Except Fault α → Placed α
  | .ok a => .ok a
  | .error fault => .error (position, fault)

end Placed

/-- The first member with this key, and its position. -/
def findMember (name : String) : List Member → Option (Nat × Node)
  | [] => none
  | (key, value) :: members =>
    if key = some name then some (0, value)
    else (findMember name members).map fun (i, node) => (i + 1, node)

/-- Fields of a record: their names, and how to get what they make from the members of an object or
from the items of an array, the first of them at a given index. -/
structure Fields (α : Type) where
  names : List String
  ofMembers : Place → List Member → Placed α
  ofItems : Place → List Node → Bool → Nat → String → Except Fault α

namespace Fields

/-- A field that has to be given. -/
def required (name : String) (d : Decoder α) : Fields α where
  names := [name]
  ofMembers p members :=
    match findMember name members with
    | some (i, node) => Placed.ofResult i (d p node)
    | none => .error (members.length + 1, .missing name)
  ofItems p items closed index wanted := Decoder.itemAt d p items closed index wanted

/-- A field that has a value even if it is not given. -/
def defaulted (name : String) (d : Decoder α) (value : α) : Fields α where
  names := [name]
  ofMembers p members :=
    match findMember name members with
    | some (i, node) => Placed.ofResult i (d p node)
    | none => .ok value
  ofItems p items closed index wanted :=
    if items.length ≤ index && closed then .ok value
    else Decoder.itemAt d p items closed index wanted

/-- A field that may be left out or `null`. -/
def optional (name : String) (d : Decoder α) : Fields (Option α) :=
  defaulted name (Decoder.optional d) none

/-- No field at all. -/
def nothing (a : α) : Fields α where
  names := []
  ofMembers _ _ := .ok a
  ofItems _ _ _ _ _ := .ok a

/-- The fields of both. -/
def both (f : Fields (α → β)) (a : Fields α) : Fields β where
  names := f.names ++ a.names
  ofMembers p members := Placed.both (f.ofMembers p members) (a.ofMembers p members)
  ofItems p items closed index wanted := do
    let g ← f.ofItems p items closed index wanted
    let x ← a.ofItems p items closed (index + f.names.length) wanted
    pure (g x)

instance : Applicative Fields where
  pure := nothing
  seq f a := both f (a ())

/-- The first thing to object to besides the fields themselves: a key that spells no text, a name
given twice, or a value without meaning that is not whole. -/
def stray (names seen : List String) (position : Nat) : List Member → Option (Nat × Fault)
  | [] => none
  | (none, _) :: _ => some (position, .unreadable)
  | (some key, value) :: members =>
    if names.contains key then
      if seen.contains key then some (position, .mismatch (.duplicateField key))
      else stray names (key :: seen) (position + 1) members
    else if value.whole then stray names seen (position + 1) members
    else some (position, .unreadable)

/-- What stands in an object besides the fields, and whether it was brought to its end. -/
def around (names : List String) (members : List Member) (closed : Bool) : Placed Unit :=
  match stray names [] 0 members with
  | some e => .error e
  | none => if closed then .ok () else .error (members.length, .unreadable)

/-- The fields of an object whose brace is already open. -/
def ofObject (fields : Fields α) (p : Place) (members : List Member) (closed : Bool) :
    Except Fault α :=
  (Placed.both ((around fields.names members closed).map fun _ a => a)
    (fields.ofMembers p members)).result

/-- The fields as the items of an array whose bracket is already open. -/
def ofArray (fields : Fields α) (what : String) (p : Place) (items : List Node) (closed : Bool) :
    Except Fault α := do
  let count := fields.names.length
  let a ← fields.ofItems p items closed 0 (what ++ " with " ++ Decoder.elements count)
  Decoder.finish p items closed count
  pure a

end Fields

namespace Decoder

/-- A record of this name. -/
def record (name : String) (fields : Fields α) : Decoder α
  | p, .array items closed => do
    let p ← enter p
    fields.ofArray ("struct " ++ name) p items closed
  | p, .object members closed => do
    let p ← enter p
    fields.ofObject p members closed
  | _, node => .error (wrongType ("struct " ++ name) node)

end Decoder

end Marginalia.Json
