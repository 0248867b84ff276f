import Marginalia.Json.Tagged
import Marginalia.Json.Tree

/-!
# Exchange — commands

The analyses that can be asked for.
-/

namespace Marginalia

/-- An analysis. -/
inductive Command where
  /-- Uses, statements and loans of every body. -/
  | permissions
  /-- Uses of every body. -/
  | boundaries
  /-- An execution of the program. -/
  | interpreter
deriving DecidableEq, Repr, Inhabited

/-- A name that no command has. -/
structure UnknownCommand where
  name : String
deriving DecidableEq, Repr

def UnknownCommand.message (e : UnknownCommand) : String := s!"unknown command `{e.name}`"

namespace Command

def all : List Command := [permissions, boundaries, interpreter]

def name : Command → String
  | permissions => "permissions"
  | boundaries => "boundaries"
  | interpreter => "interpreter"

def ofName? (name : String) : Except UnknownCommand Command :=
  match all.find? fun c => c.name = name with
  | some c => .ok c
  | none => .error ⟨name⟩

def toJson (c : Command) : Json := .string c.name

def decoder : Json.Decoder Command := .choice (all.map fun c => (c.name, c))

end Command

end Marginalia
