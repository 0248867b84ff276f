import Marginalia.Exchange.Reply
import Marginalia.Overlay.Store
import Marginalia.Session.Render
import Marginalia.Trace.Basic

/-!
# Session — decorations for a payload

A payload becomes decorations, layer by layer. The bodies that were refused are set apart; each
decoration of another body says which one it comes from.
-/

namespace Marginalia

/-- The decorations of the layers that a payload fills, and the bodies that were refused. -/
structure Marking where
  layers : List (Layer × List Decoration)
  refused : List (Nat × Refusal)
  /-- How many bodies were not refused. -/
  applied : Nat
deriving DecidableEq, Repr

namespace Loan

def decoration (unit : Nat) (l : Loan) : Decoration :=
  ⟨l.span, some unit, .loan l.key l.issuedAt l.refined⟩

end Loan

namespace Use

def decoration (unit : Nat) (u : Use) : Decoration := ⟨u.span, some unit, .use u⟩

end Use

namespace Statement

def decoration (unit : Nat) (s : Statement) : Decoration := ⟨s.location, some unit, .statement s⟩

end Statement

namespace Marking

/-- The bodies that were not refused, with their positions. -/
def accepted (units : List (Outcome α)) : List (Nat × α) :=
  units.zipIdx.filterMap fun (unit, i) =>
    match unit with
    | .ok a => some (i, a)
    | .error _ => none

/-- The bodies that were refused, with their positions. -/
def refusals (units : List (Outcome α)) : List (Nat × Refusal) :=
  units.zipIdx.filterMap fun (unit, i) =>
    match unit with
    | .ok _ => none
    | .error r => some (i, r)

/-- The decorations of all bodies, one body after the other. -/
def decorations (mark : Nat → β → Decoration) (items : α → List β) (bodies : List (Nat × α)) :
    List Decoration :=
  bodies.flatMap fun (unit, body) => (items body).map (mark unit)

/-- The decorations of a layer that may be switched off, and then shows nothing. -/
def shown (on : Bool) (ds : List Decoration) : List Decoration := if on then ds else []

/-- Loans, uses and statements; each of the three layers is filled, if only with nothing. -/
def ofFacts (view : PermissionsView) (units : List (Outcome BodyFacts)) : Marking :=
  let bodies := accepted units
  { layers :=
      [(.loans, decorations Loan.decoration BodyFacts.loans bodies),
        (.uses, shown view.showsUses (decorations Use.decoration BodyFacts.uses bodies)),
        (.statements,
          shown view.showsStatements
            (decorations Statement.decoration BodyFacts.statements bodies))]
    refused := refusals units
    applied := bodies.length }

/-- Uses alone. -/
def ofUses (units : List (Outcome BodyUses)) : Marking :=
  let bodies := accepted units
  { layers := [(.uses, decorations Use.decoration BodyUses.uses bodies)]
    refused := refusals units
    applied := bodies.length }

/-- A marker for each of the steps at these positions. -/
def markers (trace : Trace) (positions : List Nat) : List Decoration :=
  positions.filterMap fun position =>
    (trace.steps[position]?).map fun step => ⟨step.span, none, .marker position⟩

end Marking

end Marginalia
