import Marginalia.Trace.Basic

/-!
# Trace — playing an execution

A `Player` is an execution with the position of the step on show. Moving never leaves the steps.
-/

namespace Marginalia

/-- An execution and the position of the step on show. -/
structure Player where
  trace : Trace
  current : Option Nat
deriving Repr, Inhabited

namespace Player

/-- Nothing to show. -/
def empty : Player := ⟨.empty, none⟩

/-- Shows the first step, if there is one. -/
def ofTrace (trace : Trace) : Player := ⟨trace, if trace.steps.isEmpty then none else some 0⟩

def size (p : Player) : Nat := p.trace.size

/-- The step on show. -/
def step? (p : Player) : Option Step := p.current.bind fun i => p.trace.steps[i]?

/-- Shows the step at a position; past the end nothing moves. -/
def seek (p : Player) (index : Nat) : Player :=
  if index < p.size then { p with current := some index } else p

/-- Moves on by one step. -/
def next (p : Player) : Player := p.seek (p.current.elim 0 (· + 1))

/-- Moves back by one step. -/
def prev (p : Player) : Player := p.seek (p.current.elim 0 (· - 1))

end Player

end Marginalia
