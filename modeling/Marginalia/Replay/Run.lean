import Marginalia.Replay.Arguments
import Marginalia.Replay.Diagnostic
import Marginalia.Replay.Printout

/-!
# Replay — one render from its reply

A replay takes the reply to a single render from a file. It prints what the session tells, then the
steps of an execution one after the other and how it ended; what was reported becomes diagnostics.
The replay succeeds if the reply was shown and nothing was reported. It breaks off at a line that
cannot be printed; nothing comes after that, and the status says so.
-/

namespace Marginalia.Replay

/-- What comes of a replay. -/
structure Record where
  /-- What the session tells the world, line by line. -/
  lines : List String
  /-- The steps of the execution, as they are shown one after the other. -/
  steps : List StepView
  /-- How the execution ended. -/
  ending : Option Ending
  reports : List Report
  /-- How the render ended; nothing, if the replay broke off before that was known. -/
  verdict : Option Verdict
deriving Repr

/-- The render was shown. -/
def isApplied : Option Verdict → Bool
  | some (.applied _) => true
  | _ => false

/-- Lines, each ended. -/
def endLines (lines : List String) : String := String.join (lines.map (· ++ "\n"))

/-- What is printed after the last step. -/
def endingLines : Option Ending → List String
  | some .success => ["program finished"]
  | _ => []

/-- What is reported after the last step. -/
def endingDiagnostics (text : String) : Option Ending → List Diagnostic
  | some (.fault message span) => [.about s!"program faulted: {message}" text span]
  | _ => []

namespace Record

/-- A replay that broke off after some lines. -/
def brokenOff (lines : List String) : Record := ⟨lines, [], none, [], none⟩

/-- Everything that is printed. -/
def printed (r : Record) : String :=
  endLines r.lines ++ String.join (r.steps.map StepView.text) ++ endLines (endingLines r.ending)

/-- Everything that is reported about a text. -/
def diagnostics (r : Record) (text : String) : List Diagnostic :=
  endingDiagnostics text r.ending ++ r.reports.map (Diagnostic.ofReport text)

/-- The reply was shown and nothing went wrong with it. That the program faulted is no failure. -/
def success (r : Record) : Bool := isApplied r.verdict && r.reports.isEmpty

/-- The status that the replay ends with. -/
def status (r : Record) : Nat :=
  match r.verdict with
  | none => 101
  | some _ => if r.success then 0 else 1

end Record

/-- The steps at positions of the execution, as they are shown one after the other. -/
def walk (s : Session) : List Nat → List StepView
  | [] => []
  | position :: positions =>
    let (s, _, view) := s.seek position
    view.toList ++ walk s positions

/-- The reports among notices. -/
def reports (notices : List Notice) : List Report :=
  notices.filterMap fun
    | .report _ r => some r
    | _ => none

/-- Shows the reply to a render of a text. -/
def replay (digest : Digest) (config : Config) (render : Render) (text reply : String) : Record :=
  let document := Document.ofText text
  match (Session.initial config).start digest document render with
  | none => ⟨[], [], none, [], some .busy⟩
  | some (s, flight) =>
    let (s, notices, verdict) := s.finish digest document flight (.text reply)
    match printAll (notices.flatMap (noticeLines (Lines.ofText text))) with
    | .error lines => .brokenOff lines
    | .ok lines =>
      { lines
        steps := walk s (List.range s.player.size)
        ending := s.ending
        reports := reports notices
        verdict := some verdict }

/-- What a command line asks for and the text of the source file, or a complaint. Files are read in
the order of the command line, the first that cannot be read is complained about. -/
def run (digest : Digest) (config : Config) (read : String → Except Obstacle String)
    (arguments : List String) : Except Complaint (Arguments × String × Record) := do
  let a ← Arguments.ofList arguments
  let text ← (read a.source).mapError (.unreadable a.source)
  let reply ← (read a.reply).mapError (.unreadable a.reply)
  pure (a, text, replay digest config a.render text reply)

end Marginalia.Replay
