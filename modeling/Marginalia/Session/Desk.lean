import Marginalia.Session.Basic

/-!
# Session — a document on the desk

A `Desk` is all there is to a run: the document, the session that annotates it, and the flights
that wait for an answer, each under the number it was started with. Actions happen one at a time in
any order; an answer may be late, and a flight may never get one. `Desk.run` keeps every moment of
a run, so that what is told at one point can be held against what was there before.
-/

namespace Marginalia

/-- A document, the session on it and the flights that wait. -/
structure Desk where
  document : Document
  session : Session
  /-- How many flights there have been. -/
  started : Nat
  waiting : List (Nat × Flight)
deriving Repr

/-- What can happen at a desk. -/
inductive Action where
  /-- The document is edited; the session is not told. -/
  | edit (e : Edit)
  /-- The session is told that the document changed. -/
  | changed
  /-- A render is asked for. -/
  | start (r : Render)
  /-- The flight of this number gets its answer. -/
  | answer (flight : Nat) (a : Answer)
  | seek (position : Nat)
  | next
  | prev
deriving DecidableEq, Repr

/-- What the one who acts is told. -/
inductive Response where
  | edited (r : Except EditError Revision)
  | told
  /-- The render waits under this number. -/
  | waiting (flight : Nat)
  | ended (v : Verdict)
  /-- No flight waits under the number. -/
  | unknownFlight
  | step (view : Option StepView)
deriving Repr

/-- An action with what was there before it and what it led to. -/
structure Moment where
  before : Desk
  action : Action
  notices : List Notice
  response : Response
  after : Desk
deriving Repr

namespace Desk

/-- A document that nothing was done to yet. -/
def initial (config : Config) (text : String) : Desk := ⟨.ofText text, .initial config, 0, []⟩

/-- The flight that waits under a number. -/
def flight? (d : Desk) (n : Nat) : Option Flight :=
  (d.waiting.find? fun w => w.1 = n).map Prod.snd

variable (digest : Digest)

/-- Does an action. -/
def act (d : Desk) : Action → Desk × List Notice × Response
  | .edit e =>
    let (document, revision) := d.document.edit e
    ({ d with document }, [], .edited revision)
  | .changed =>
    let (session, notices) := d.session.documentChanged d.document
    ({ d with session }, notices, .told)
  | .start r =>
    match d.session.start digest d.document r with
    | none => (d, [], .ended .busy)
    | some (session, flight) =>
      ({ d with
          session, started := d.started + 1, waiting := d.waiting ++ [(d.started, flight)] },
        [.call flight.request], .waiting d.started)
  | .answer n a =>
    match d.flight? n with
    | none => (d, [], .unknownFlight)
    | some flight =>
      let (session, notices, verdict) := d.session.finish digest d.document flight a
      ({ d with session, waiting := d.waiting.filter fun w => w.1 ≠ n }, notices, .ended verdict)
  | .seek position =>
    let (session, notices, view) := d.session.seek position
    ({ d with session }, notices, .step view)
  | .next =>
    let (session, notices, view) := d.session.next
    ({ d with session }, notices, .step view)
  | .prev =>
    let (session, notices, view) := d.session.prev
    ({ d with session }, notices, .step view)

/-- What an action leads to. -/
def moment (d : Desk) (a : Action) : Moment :=
  let (after, notices, response) := d.act digest a
  ⟨d, a, notices, response, after⟩

/-- Actions done one after the other. -/
def run (d : Desk) : List Action → List Moment
  | [] => []
  | a :: actions => d.moment digest a :: (d.moment digest a).after.run actions

/-- The desk after actions. -/
def afterAll (d : Desk) (actions : List Action) : Desk :=
  actions.foldl (fun d a => (d.moment digest a).after) d

end Desk

end Marginalia
