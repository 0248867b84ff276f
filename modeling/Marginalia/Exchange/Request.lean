import Marginalia.Exchange.Command
import Marginalia.Json.Printer

/-!
# Exchange — requests

A request carries a whole text and the options of one command. The options say which command that
is, so a command never meets the options of another.
-/

namespace Marginalia

/-- The statements that are reported. -/
inductive Coverage where
  /-- Those at which some permission changes. -/
  | changes
  | all
deriving DecidableEq, Repr, Inhabited

structure PermissionsOptions where
  coverage : Coverage
  /-- The program is expected not to compile. -/
  shouldFail : Bool
deriving DecidableEq, Repr, Inhabited

structure BoundariesOptions where
  shouldFail : Bool
deriving DecidableEq, Repr, Inhabited

structure InterpreterOptions where
  /-- The program is expected to fault. -/
  shouldFail : Bool
deriving DecidableEq, Repr, Inhabited

/-- The options of one command. -/
inductive Options where
  | permissions (o : PermissionsOptions)
  | boundaries (o : BoundariesOptions)
  | interpreter (o : InterpreterOptions)
deriving DecidableEq, Repr, Inhabited

/-- A text and what is asked about it. -/
structure Request where
  text : String
  options : Options
deriving DecidableEq, Repr, Inhabited

namespace Options

def command : Options → Command
  | permissions _ => .permissions
  | boundaries _ => .boundaries
  | interpreter _ => .interpreter

/-- The options that ask for nothing special. -/
def ofCommand : Command → Options
  | .permissions => permissions ⟨.changes, false⟩
  | .boundaries => boundaries ⟨false⟩
  | .interpreter => interpreter ⟨false⟩

end Options

def Request.command (r : Request) : Command := r.options.command

/-! ## As messages -/

namespace Coverage

def toJson : Coverage → Json
  | changes => .string "Changes"
  | all => .string "All"

def decoder : Json.Decoder Coverage := .choice [("Changes", changes), ("All", all)]

end Coverage

namespace PermissionsOptions

def toJson (o : PermissionsOptions) : Json :=
  .object [("include_mode", o.coverage.toJson), ("should_fail", .bool o.shouldFail)]

def decoder : Json.Decoder PermissionsOptions :=
  .record "PermissionsOptions"
    (mk <$> .required "include_mode" Coverage.decoder <*> .required "should_fail" .bool)

end PermissionsOptions

namespace BoundariesOptions

def toJson (o : BoundariesOptions) : Json := .object [("should_fail", .bool o.shouldFail)]

def decoder : Json.Decoder BoundariesOptions :=
  .record "BoundariesOptions" (mk <$> .required "should_fail" .bool)

end BoundariesOptions

namespace InterpreterOptions

def toJson (o : InterpreterOptions) : Json := .object [("should_fail", .bool o.shouldFail)]

def decoder : Json.Decoder InterpreterOptions :=
  .record "InterpreterOptions" (mk <$> .required "should_fail" .bool)

end InterpreterOptions

def Options.toJson : Options → Json
  | permissions o => o.toJson
  | boundaries o => o.toJson
  | interpreter o => o.toJson

def Request.toJson (r : Request) : Json :=
  .object [("command", r.command.toJson), ("code", .string r.text), ("options", r.options.toJson)]

end Marginalia
