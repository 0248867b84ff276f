import Marginalia.Session.Marking
import Marginalia.Session.Report
import Marginalia.Text.Document
import Marginalia.Trace.Player
import Marginalia.Trace.View

/-!
# Session — what happens from a render to its reply

A session shows the replies to its renders in the layers of its store, and the steps of the last
execution in its player. It owns no text: each operation is given the document as it is then.

`Session.start` sends a request and leaves a `Flight`, which remembers what the session and the
document were like; `Session.finish` takes the flight and the answer. Between the two anything may
happen. Two things tell a flight that came too late: `Session.documentChanged` counts up the epoch,
and the fingerprint of the document changes with every edit. Such a flight changes nothing that is
shown. Neither does one that brings no payload, or the payload of another command.
-/

namespace Marginalia

/-- How far a session is with a render. -/
inductive Phase where
  | idle
  | requesting (c : Command)
  | applying (c : Command)
  /-- That there is no reply is being reported. -/
  | failed (c : Command)
deriving DecidableEq, Repr, Inhabited

def Phase.text : Phase → String
  | idle => "idle"
  | requesting c => s!"requesting {c.name}"
  | applying c => s!"applying {c.name}"
  | failed c => s!"failed {c.name}"

/-- What a session does to the world around it, with its phase at the time. -/
inductive Notice where
  /-- Asks for an analysis. -/
  | call (r : Request)
  /-- Makes layers show something else. -/
  | dispatch (phase : Phase) (t : Transaction)
  /-- Marks a step of the execution as the one on show, or none. -/
  | stepIndex (phase : Phase) (position : Option Nat)
  /-- Hides a stretch of the text. -/
  | hide (phase : Phase) (span : Span)
  /-- Reports something that went wrong. -/
  | report (phase : Phase) (r : Report)
deriving DecidableEq, Repr

/-- What came of a payload. -/
structure Summary where
  revision : Revision
  /-- How many bodies or steps are shown. -/
  applied : Nat
  /-- How many bodies or steps were reported instead. -/
  failed : Nat
deriving DecidableEq, Repr

/-- How a render ended. -/
inductive Verdict where
  | applied (s : Summary)
  /-- Another render was waiting; this one was not begun. -/
  | busy
  /-- The document changed in the meantime; the answer was thrown away. -/
  | stale
  /-- The reply was a refusal. -/
  | buildFailed
  /-- There was no reply. -/
  | failed
deriving DecidableEq, Repr

/-- The state of a session. -/
structure Session where
  config : Config
  phase : Phase
  /-- How often the session was told that the document changed. -/
  epoch : Nat
  store : Store
  player : Player
  /-- How the execution in the player ended. -/
  ending : Option Ending
  /-- What was hidden since the document changed. -/
  hidden : List Span
deriving Repr

/-- A render that waits for its answer. -/
structure Flight where
  job : Job
  /-- The epoch of the session at the start. -/
  epoch : Nat
  /-- The text of the document at the start. -/
  text : String
  /-- The document at the start. -/
  fingerprint : Fingerprint
  /-- What is hidden with the reply. -/
  hidden : List Span
deriving DecidableEq, Repr

namespace Flight

def command (f : Flight) : Command := f.job.command

/-- The request that was sent. -/
def request (f : Flight) : Request := ⟨f.text, f.job.options⟩

/-- The revision of the document at the start. -/
def revision (f : Flight) : Revision := f.fingerprint.revision

end Flight

/-- What a payload changes besides the store and the player. -/
structure Landing where
  effects : List Effect
  /-- The step to mark, where the payload is an execution. -/
  stepIndex : Option (Option Nat)
  reports : List Report
  applied : Nat
  failed : Nat
deriving DecidableEq, Repr

/-- What a landing makes known, in order: the layers, the step to mark, the spans to hide, and what
went wrong. -/
def Landing.notices (l : Landing) (phase : Phase) (revision : Revision) (hides : List Span) :
    List Notice :=
  (if l.effects.isEmpty then [] else [.dispatch phase ⟨revision, l.effects⟩]) ++
    l.stepIndex.toList.map (.stepIndex phase) ++ hides.map (.hide phase) ++
    l.reports.map (.report phase)

/-- The spans that were not seen before, each once. -/
def fresh (seen : List Span) : List Span → List Span
  | [] => []
  | span :: spans =>
    if span ∈ seen then fresh seen spans else span :: fresh (span :: seen) spans

namespace Session

/-- A session that has shown nothing yet. -/
def initial (config : Config) : Session := ⟨config, .idle, 0, .initial, .empty, none, []⟩

/-! ## Starting -/

/-- Starts a render, unless another one is waiting. -/
def start (digest : Digest) (s : Session) (d : Document) (r : Render) :
    Option (Session × Flight) :=
  match s.phase with
  | .requesting _ => none
  | _ => some ({ s with phase := .requesting r.job.command },
      ⟨r.job, s.epoch, d.text, d.fingerprint digest, r.hiddenSpans s.config d.text⟩)

/-! ## Taking a payload in -/

/-- Fills the layers of a marking. -/
def applyMarking (s : Session) (d : Document) (computedAt : Revision) (c : Command) (m : Marking) :
    Session × Landing :=
  let (store, effects) := s.store.replaceEach m.layers computedAt d.map?
  ({ s with store },
    ⟨effects, none, m.refused.map fun (unit, r) => .body c unit r, m.applied, m.refused.length⟩)

/-- Shows an execution from its first step on; nothing of it, if no step has a place. -/
def applyTrace (s : Session) (d : Document) (computedAt : Revision) (length : Nat)
    (raw : RawTrace) : Session × Landing :=
  let trace := Trace.ofRaw raw length
  let positions := trace.renderable d.length
  let (store, effect) :=
    s.store.replaceAll .markers (Marking.markers trace positions) computedAt d.map?
  let player := match positions.head? with
    | some first => (Player.ofTrace trace).seek first
    | none => .empty
  ({ s with store, player, ending := some trace.ending },
    ⟨[effect], some positions.head?,
      trace.rejected.map .rejected ++ trace.danglingPointers.map .dangling,
      positions.length, trace.rejected.length⟩)

/-- Takes in the payload of a flight, if it is one that the job asks for. -/
def apply (s : Session) (d : Document) (f : Flight) (payload : Payload) :
    Except Malformed (Session × Landing) :=
  match f.job, payload with
  | .permissions view, .permissions units =>
    .ok (s.applyMarking d f.revision payload.command (Marking.ofFacts view units))
  | .boundaries, .boundaries units =>
    .ok (s.applyMarking d f.revision payload.command (Marking.ofUses units))
  | .interpreter _, .interpreter raw => .ok (s.applyTrace d f.revision f.text.length raw)
  | job, payload => .error (.mismatch job.command payload.command)

/-! ## Finishing -/

/-- The session at rest again. -/
def rest (s : Session) : Session := { s with phase := .idle }

/-- Ends a flight to which there is no reply. -/
def fail (s : Session) (f : Flight) (o : Outage) : Session × List Notice × Verdict :=
  (s.rest, [.report (.failed f.command) (.outage o)], .failed)

/-- Shows a payload. -/
def land (s : Session) (d : Document) (f : Flight) (payload : Payload) :
    Session × List Notice × Verdict :=
  match s.apply d f payload with
  | .error m => s.fail f (.malformed m)
  | .ok (s, landing) =>
    let hides := fresh s.hidden f.hidden
    ({ s with hidden := s.hidden ++ hides }.rest,
      landing.notices (.applying f.command) f.revision hides,
      .applied ⟨f.revision, landing.applied, landing.failed⟩)

/-- Takes the answer to a flight. -/
def finish (digest : Digest) (s : Session) (d : Document) (f : Flight) (a : Answer) :
    Session × List Notice × Verdict :=
  if s.epoch ≠ f.epoch then (s, [], .stale)
  else if f.fingerprint.agrees (d.fingerprint digest) then
    match a.reply f.request.command s.config.deadline with
    | .error o => s.fail f o
    | .ok (.error r) => (s.rest, [.report (.applying f.command) (.refused r)], .buildFailed)
    | .ok (.ok payload) => s.land d f payload
  else (s.rest, [], .stale)

/-! ## The document and the step on show -/

/-- Forgets everything that was computed for the text before it changed. -/
def documentChanged (s : Session) (d : Document) : Session × List Notice :=
  let (store, effects) := s.store.clearAll
  ({ s with
      phase := .idle, epoch := s.epoch + 1, store, player := .empty, ending := none, hidden := [] },
    [.dispatch .idle ⟨d.revision, effects⟩, .stepIndex .idle none])

/-- Moves within the execution, and shows the step that is reached. -/
def move (s : Session) (f : Player → Player) : Session × List Notice × Option StepView :=
  let player := f s.player
  ({ s with player }, [.stepIndex s.phase player.current],
    player.step?.map fun step => step.view.1)

/-- Shows the step at a position. -/
def seek (s : Session) (position : Nat) : Session × List Notice × Option StepView :=
  s.move (·.seek position)

def next (s : Session) : Session × List Notice × Option StepView := s.move Player.next

def prev (s : Session) : Session × List Notice × Option StepView := s.move Player.prev

end Session

end Marginalia
