import Marginalia.Json.Fault
import Marginalia.Json.Node

/-!
# Json — decoders

A `Decoder` takes a value as read to what it stands for, or reports the first fault in reading
order. It is told where the value stands: how many brackets may still open, and whether the value
is *held*. A part of a message that comes before the name of its kind is held back until that name
is known; by then all of it was read, so its text, depth and numbers are known to be in order, and
what is left over in it is counted.
-/

namespace Marginalia.Json

/-- Where a value stands in its message. -/
structure Place where
  /-- How many brackets may still open. -/
  room : Nat
  /-- The value was read as a whole before its kind was known. -/
  held : Bool
deriving DecidableEq, Repr

/-- How many brackets may stand inside one another. -/
def depthLimit : Nat := 127

/-- Where the message itself stands. -/
def Place.top : Place := ⟨depthLimit, false⟩

/-- A way of taking values of messages to values of `α`. -/
abbrev Decoder (α : Type) := Place → Node → Except Fault α

namespace Decoder

/-- Opens a bracket. -/
def enter (p : Place) : Except Fault Place :=
  match p.room with
  | 0 => .error .tooDeep
  | room + 1 => .ok { p with room }

/-- Why a value is not of the wanted type. A fault of the value itself comes first. -/
def wrongType (wanted : String) : Node → Fault
  | .null => .mismatch (.wrongType .null wanted)
  | .bool b => .mismatch (.wrongType (.bool b) wanted)
  | .number n =>
    match n.number? with
    | none => .numberTooLarge
    | some (.whole k) => .mismatch (.wrongType (.whole k) wanted)
    | some (.real x) => .mismatch (.wrongType (.real x) wanted)
  | .string none => .unreadable
  | .string (some s) => .mismatch (.wrongType (.string s) wanted)
  | .array _ _ => .mismatch (.wrongType .sequence wanted)
  | .object _ _ => .mismatch (.wrongType .map wanted)
  | .misplaced _ | .broken => .unreadable

/-- Why a value is not of the wanted type, where a bracket is opened before it is looked at. -/
def wrongTypeInside (wanted : String) (p : Place) (node : Node) : Fault :=
  match node with
  | .array _ _ | .object _ _ =>
    match enter p with
    | .error fault => fault
    | .ok _ => wrongType wanted node
  | node => wrongType wanted node

def map (f : α → β) (d : Decoder α) : Decoder β := fun p node => (d p node).map f

/-- Goes on with a check that may refuse what was decoded. -/
def check (d : Decoder α) (f : α → Except String β) : Decoder β := fun p node =>
  match d p node with
  | .error fault => .error fault
  | .ok a =>
    match f a with
    | .error reason => .error (.mismatch (.refused reason))
    | .ok b => .ok b

/-! ## Holding a value -/

mutual

/-- Reads a value as a whole, for its own faults only. -/
def hold : Nat → Node → Except Fault Unit
  | room, .array items closed =>
    match room with
    | 0 => .error .tooDeep
    | room + 1 => do
      holdItems room items
      if closed then pure () else .error .unreadable
  | room, .object members closed =>
    match room with
    | 0 => .error .tooDeep
    | room + 1 => do
      holdMembers room members
      if closed then pure () else .error .unreadable
  | _, .number n => if n.number?.isSome then pure () else .error .numberTooLarge
  | _, .string none => .error .unreadable
  | _, .misplaced _ | _, .broken => .error .unreadable
  | _, _ => pure ()

/-- Reads the items of an array as a whole. -/
def holdItems : Nat → List Node → Except Fault Unit
  | _, [] => pure ()
  | room, item :: items => do
    hold room item
    holdItems room items

/-- Reads the members of an object as a whole. -/
def holdMembers : Nat → List Member → Except Fault Unit
  | _, [] => pure ()
  | _, (none, _) :: _ => .error .unreadable
  | room, (some _, value) :: members => do
    hold room value
    holdMembers room members

end

/-- Holds a value, unless it is part of one already held. -/
def holdAt (p : Place) (node : Node) : Except Fault Unit :=
  if p.held then pure () else hold p.room node

/-! ## Plain values -/

def bool : Decoder Bool
  | _, .bool b => .ok b
  | _, node => .error (wrongType "a boolean" node)

def string : Decoder String
  | _, .string (some s) => .ok s
  | _, node => .error (wrongType "a string" node)

/-- A text of one character. -/
def char : Decoder Char
  | _, .string (some s) =>
    match s.toList with
    | [c] => .ok c
    | _ => .error (.mismatch (.wrongValue (.string s) "a character"))
  | _, node => .error (wrongType "a character" node)

/-- A whole number from zero up to, and without, a bound. -/
def natBelow (bound : Nat) (wanted : String) : Decoder Nat := fun _ node =>
  match node with
  | .number n =>
    match n.whole? with
    | some k =>
      if 0 ≤ k ∧ k < bound then .ok k.toNat
      else .error (.mismatch (.wrongValue (.whole k) wanted))
    | none => .error (wrongType wanted node)
  | node => .error (wrongType wanted node)

/-- A count or an offset. -/
def size : Decoder Nat := natBelow wordBound "usize"

/-- A number of 32 bits. -/
def word32 : Decoder UInt32 := map UInt32.ofNat (natBelow UInt32.size "u32")

/-- A value, or nothing for `null`. -/
def optional (d : Decoder α) : Decoder (Option α)
  | _, .null => .ok none
  | p, node => (d p node).map some

/-! ## Arrays -/

/-- Decodes items in order. -/
def each (d : Decoder α) (p : Place) : List Node → Except Fault (List α)
  | [] => .ok []
  | item :: items => do
    let a ← d p item
    let as ← each d p items
    pure (a :: as)

/-- Any number of items. -/
def list (d : Decoder α) : Decoder (List α)
  | p, .array items closed => do
    let p ← enter p
    let as ← each d p items
    if closed then pure as else .error .unreadable
  | _, node => .error (wrongType "a sequence" node)

/-- The item at an index; where the array has ended, what is said about its length. -/
def itemAt (d : Decoder α) (p : Place) (items : List Node) (closed : Bool) (index : Nat)
    (wanted : String) : Except Fault α :=
  match items[index]? with
  | some item => d p item
  | none =>
    if closed then .error (.mismatch (.wrongLength index wanted)) else .error .unreadable

/-- "1 element", "2 elements". -/
def elements (n : Nat) : String := if n = 1 then "1 element" else s!"{n} elements"

/-- Makes sure that an array ends after the first `count` items. -/
def finish (p : Place) (items : List Node) (closed : Bool) (count : Nat) : Except Fault Unit :=
  if count < items.length then
    if p.held then
      .error (.mismatch (.wrongLength items.length (elements count ++ " in sequence")))
    else .error .surplus
  else if closed then pure () else .error .unreadable

/-- An array of two items, called `name` where it is something else. -/
def pairOf (name lengthName : String) (d : Decoder α) (e : Decoder β) : Decoder (α × β)
  | p, .array items closed => do
    let p ← enter p
    let a ← itemAt d p items closed 0 lengthName
    let b ← itemAt e p items closed 1 lengthName
    finish p items closed 2
    pure (a, b)
  | _, node => .error (wrongType name node)

def pair (d : Decoder α) (e : Decoder β) : Decoder (α × β) :=
  pairOf "a tuple of size 2" "a tuple of size 2" d e

/-! ## Decoders that refer to themselves -/

/-- `step` unfolded `n` times. -/
def unfoldTimes (step : Decoder α → Decoder α) : Nat → Decoder α
  | 0 => fun _ _ => .error .tooDeep
  | n + 1 => step (unfoldTimes step n)

/-- The decoder that is its own part. It may use itself only on values inside a bracket, so it
need not be unfolded more often than brackets may open. -/
def fix (step : Decoder α → Decoder α) : Decoder α := fun p node =>
  unfoldTimes step (p.room + 1) p node

end Decoder

/-! ## Whole texts -/

/-- The text is one message: all of it can be read, also where nothing is wanted of it. -/
def isMessage (root : Node) (ended : Bool) : Bool :=
  ended && (Decoder.hold depthLimit root).isOk

/-- Decodes a text. An outline that is impossible is only reported of a text that is a message. -/
def decode (d : Decoder α) (text : List Text.Glyph) : Except Fault α :=
  let (root, ended) := Node.ofText text
  match d .top root with
  | .ok a => if ended then .ok a else .error .unreadable
  | .error fault =>
    match fault with
    | .surplus | .misshapen => .error (if isMessage root ended then fault else .unreadable)
    | fault => .error fault

/-- Decodes a text of characters. -/
def decodeText (d : Decoder α) (text : String) : Except Fault α :=
  decode d (Text.glyphsOfText text)

end Marginalia.Json
