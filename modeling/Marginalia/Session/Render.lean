import Marginalia.Exchange.Request
import Marginalia.Session.Config
import Marginalia.Text.Lines

/-!
# Session — renders

A render asks for one command, and for lines to be hidden once the reply is shown.
-/

namespace Marginalia

/-- How the command `permissions` is asked for and shown. Loans are always shown. -/
structure PermissionsView where
  showsUses : Bool
  showsStatements : Bool
  coverage : Coverage
  shouldFail : Bool
deriving DecidableEq, Repr

/-- Everything is shown of the statements that change something. -/
def PermissionsView.initial : PermissionsView := ⟨true, true, .changes, false⟩

/-- A command with how it is asked for and shown. -/
inductive Job where
  | permissions (view : PermissionsView)
  | boundaries
  | interpreter (shouldFail : Bool)
deriving DecidableEq, Repr

/-- A job, and the lines to hide. -/
structure Render where
  job : Job
  /-- Lines counted from zero. -/
  hidden : List Nat
deriving DecidableEq, Repr

namespace Job

def command : Job → Command
  | permissions _ => .permissions
  | boundaries => .boundaries
  | interpreter _ => .interpreter

/-- The options that the job is asked for with. -/
def options : Job → Options
  | permissions view => .permissions ⟨view.coverage, view.shouldFail⟩
  | boundaries => .boundaries ⟨false⟩
  | interpreter shouldFail => .interpreter ⟨shouldFail⟩

end Job

/-- The spans of the lines to hide in a text; a line that is not in it is passed over. -/
def Render.hiddenSpans (r : Render) (config : Config) (text : String) : List Span :=
  if config.hides then r.hidden.filterMap (Lines.ofText text).span? else []

end Marginalia
