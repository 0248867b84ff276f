import Marginalia.Trace.Step

/-!
# Trace — validated executions

An execution is reported step by step. A step that has no place in the text is rejected by itself,
and the others are kept in order. `Trace.ofRaw` makes that division; each step keeps its position
among those reported.
-/

namespace Marginalia

/-- How an execution ended. -/
inductive Ending where
  | success
  /-- The program faulted, perhaps at a known place. -/
  | fault (message : String) (span : Option Span)
deriving DecidableEq, Repr, Inhabited

namespace Ending

def toJson : Ending → Json
  | .success => .kindOnly "Success"
  | .fault message span =>
    .tagged "Error" (.object [("message", .string message), ("range", .orNull Span.toJson span)])

def decoder : Json.Decoder Ending :=
  .beside "TraceResult"
    [("Success", .bare success),
      ("Error", .fields (fault <$> .required "message" .string <*> .optional "range" Span.decoder))]

end Ending

/-- An execution as it is reported. -/
structure RawTrace where
  steps : List RawStep
  ending : Ending
deriving Repr, Inhabited

namespace RawTrace

def toJson (t : RawTrace) : Json :=
  .object [("steps", .list RawStep.toJson t.steps), ("result", t.ending.toJson)]

def decoder : Json.Decoder RawTrace :=
  .record "RawTrace" (mk <$> .required "steps" (.list RawStep.decoder) <*>
    .defaulted "result" Ending.decoder .success)

end RawTrace

/-- Why a step was not kept. -/
inductive Rejection where
  | outOfBounds (step : Nat) (span : Span) (length : Nat)
  | emptyStack (step : Nat)
deriving DecidableEq, Repr

namespace Rejection

/-- The position of the step among those reported. -/
def step : Rejection → Nat
  | .outOfBounds step _ _ => step
  | .emptyStack step => step

def message : Rejection → String
  | .outOfBounds step span length =>
    s!"step {step} covers {span.text}, outside a document of {length} characters"
  | .emptyStack step => s!"step {step} has no stack frames"

end Rejection

/-- A pointer of a step that leads nowhere in it. -/
structure DanglingPointer where
  /-- The position of the step among those reported. -/
  step : Nat
  error : Dangling
deriving DecidableEq, Repr

/-- The steps of an execution that have a place in the text, and the others. -/
structure Trace where
  steps : List Step
  ending : Ending
  rejected : List Rejection
deriving Repr, Inhabited

/-- A reported step at its place in a text of `length` characters. -/
def RawStep.place (length index : Nat) (s : RawStep) : Except Rejection Step :=
  match s.span? with
  | none => .error (.emptyStack index)
  | some span =>
    if span.fits length then .ok (s.placed index span)
    else .error (.outOfBounds index span length)

namespace Trace

/-- No execution. -/
def empty : Trace := ⟨[], .success, []⟩

/-- The kept and the rejected steps of a report, whose first step is at position `index`. -/
def sort (length : Nat) (index : Nat) : List RawStep → List Step × List Rejection
  | [] => ([], [])
  | s :: steps =>
    let (kept, rejected) := sort length (index + 1) steps
    match s.place length index with
    | .ok step => (step :: kept, rejected)
    | .error r => (kept, r :: rejected)

/-- The execution of a report, in a text of `length` characters. -/
def ofRaw (raw : RawTrace) (length : Nat) : Trace :=
  let (kept, rejected) := sort length 0 raw.steps
  ⟨kept, raw.ending, rejected⟩

def size (t : Trace) : Nat := t.steps.length

/-- The pointers that lead nowhere, step by step. -/
def danglingPointers (t : Trace) : List DanglingPointer :=
  t.steps.flatMap fun step =>
    (step.values.flatMap Value.pointers).filterMap fun path =>
      match step.snapshot.resolve path with
      | .ok _ => none
      | .error error => some ⟨step.index, error⟩

/-- The positions of the steps that have a place in a text of `length` characters. -/
def renderable (t : Trace) (length : Nat) : List Nat :=
  (t.steps.zipIdx.filter fun (step, _) => step.span.fits length).map Prod.snd

end Trace

end Marginalia
