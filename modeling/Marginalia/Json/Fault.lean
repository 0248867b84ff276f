import Marginalia.Text.Quoted
import Marginalia.Number.Notation

/-!
# Json — faults

Why a text was not accepted. A `Fault` is either about the text itself (it is no message, it nests
too deep, a number in it is beyond all doubles, it is a message but of an impossible outline), or a
`Mismatch`: a message whose parts are not those that were wanted.
-/

namespace Marginalia.Json

/-- What stood in the message where something else was wanted. -/
inductive Found where
  | bool (b : Bool)
  | whole (n : Int)
  | real (x : Binary64)
  | string (s : String)
  | null
  | sequence
  | map
  | bareVariant
deriving DecidableEq, Repr

/-- A message that does not fit what was wanted. -/
inductive Mismatch where
  | missingField (name : String)
  | duplicateField (name : String)
  | unknownVariant (name : String) (known : List String)
  | wrongType (found : Found) (wanted : String)
  | wrongValue (found : Found) (wanted : String)
  | wrongLength (length : Nat) (wanted : String)
  /-- A part that fits by itself but breaks a rule of what is built from it. -/
  | refused (reason : String)
deriving DecidableEq, Repr

/-- Why a text was not accepted. -/
inductive Fault where
  /-- The text is not one message. -/
  | unreadable
  /-- Too many brackets stand inside one another. -/
  | tooDeep
  /-- A number is beyond all doubles. -/
  | numberTooLarge
  /-- An array goes on after everything that was wanted from it. -/
  | surplus
  /-- A value of a kind that could never be what was wanted. -/
  | misshapen
  | mismatch (m : Mismatch)
deriving DecidableEq, Repr

namespace Found

def message : Found → String
  | .bool b => s!"boolean `{b}`"
  | .whole n => s!"integer `{n}`"
  | .real (.finite negative rank) =>
    let digits := String.ofList (Number.finiteText Number.messageStyle negative rank)
    s!"floating point `{digits}`"
  | .real x => s!"floating point `{Number.viewText x}`"
  | .string s => s!"string {Text.quote s}"
  | .null => "null"
  | .sequence => "sequence"
  | .map => "map"
  | .bareVariant => "unit variant"

end Found

namespace Mismatch

/-- The names that were possible, as a sentence lists them. -/
def listNames : List String → String
  | [] => "there are no variants"
  | [a] => s!"expected `{a}`"
  | [a, b] => s!"expected `{a}` or `{b}`"
  | names => "expected one of " ++ String.intercalate ", " (names.map fun n => s!"`{n}`")

def message : Mismatch → String
  | .missingField name => s!"missing field `{name}`"
  | .duplicateField name => s!"duplicate field `{name}`"
  | .unknownVariant name known => s!"unknown variant `{name}`, {listNames known}"
  | .wrongType found wanted => s!"invalid type: {found.message}, expected {wanted}"
  | .wrongValue found wanted => s!"invalid value: {found.message}, expected {wanted}"
  | .wrongLength length wanted => s!"invalid length {length}, expected {wanted}"
  | .refused reason => reason

end Mismatch

namespace Fault

def message : Fault → String
  | .unreadable => "malformed text"
  | .tooDeep => "recursion limit exceeded"
  | .numberTooLarge => "number out of range"
  | .surplus => "trailing characters"
  | .misshapen => "expected value"
  | .mismatch m => m.message

/-- A field that was not given. -/
def missing (name : String) : Fault := .mismatch (.missingField name)

end Fault

end Marginalia.Json
