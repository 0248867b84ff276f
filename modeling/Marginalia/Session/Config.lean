import Marginalia.Number.Count
import Marginalia.Number.Word
import Marginalia.Text.Blank

/-!
# Session — settings
-/

namespace Marginalia

/-- The settings of a session. -/
structure Config where
  /-- How long to wait for a reply, in milliseconds. -/
  deadline : Nat
  /-- Lines that a render wants hidden are hidden. -/
  hides : Bool
deriving DecidableEq, Repr

namespace Config

/-- Five seconds, and lines are hidden. -/
def initial : Config := ⟨5000, true⟩

/-- The variable that sets the deadline. -/
def deadlineVariable : String := "LENS_DEADLINE_MS"

/-- The milliseconds that the value of a variable says. -/
def readDeadline? (value : String) : Option Nat :=
  Number.readCount? wordBound (Text.trim value.toList)

/-- The settings that variables ask for. A deadline that cannot be read is passed over. -/
def ofLookup (lookup : String → Option String) : Config :=
  match (lookup deadlineVariable).bind readDeadline? with
  | some deadline => { initial with deadline }
  | none => initial

end Config

end Marginalia
