import Marginalia.Exchange.Outage

/-!
# Session — reports

What goes wrong in a session is reported and nothing more. A report says at which point the session
recovered: no reply at all, a refusal, one body or one step less.
-/

namespace Marginalia

/-- Something that went wrong. -/
inductive Report where
  /-- There was no reply; nothing is shown. -/
  | outage (o : Outage)
  /-- The program could not be built or analysed; nothing is shown. -/
  | refused (r : Refusal)
  /-- One body is lacking from what is shown. -/
  | body (command : Command) (unit : Nat) (r : Refusal)
  /-- A pointer of a step leads nowhere. -/
  | dangling (d : DanglingPointer)
  /-- One step is lacking from what is shown. -/
  | rejected (r : Rejection)
deriving DecidableEq, Repr

namespace Report

def message : Report → String
  | outage o => s!"backend unavailable: {o.message}"
  | refused r => r.message
  | body command unit r => s!"{command.name} unit {unit}: {r.message}"
  | dangling d => s!"step {d.step}: {d.error.message}"
  | rejected r => r.message

/-- A word for the point of recovery. -/
def kind : Report → String
  | outage _ => "infrastructure"
  | refused _ => "build"
  | body _ _ _ => "unit"
  | dangling _ => "dangling-reference"
  | rejected _ => "rejected-step"

/-- The place of the program that the report is about. -/
def span? : Report → Option Span
  | refused r => r.span?
  | body _ _ r => r.span?
  | _ => none

end Report

end Marginalia
