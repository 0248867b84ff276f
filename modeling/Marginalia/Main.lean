import Marginalia.Replay.Run

/-!
# The command line

Reads the two files, prints the replay, and ends with its status.
-/

namespace Marginalia.Replay

/-- What the command line takes. -/
def help : List String :=
  ["", "Commands: permissions, boundaries, interpreter", "Options:",
    "  --hide <line>      Fold a line once the render lands (repeatable)",
    "  --all              Show every permission step, not only changes",
    "  --no-boundaries    Skip the boundaries layer",
    "  --no-stepper       Skip the permission steps layer",
    "  --should-fail      The program is expected to fail"]

/-- The number of a cause. Where the path was only looked at it is reported as its negative. -/
def causeNumber (code : UInt32) : UInt32 := if code < 0x80000000 then code else 0 - code

/-- Why a file could not be read. -/
def obstacle : IO.Error → Obstacle
  | .noFileOrDirectory _ _ _ => .missing
  | .permissionDenied _ _ _ => .denied
  | .inappropriateType _ code _ => if causeNumber code = 20 then .notFolder else .folder
  | .invalidArgument _ code reason =>
    if causeNumber code = 36 then .nameTooLong else .other reason
  | e => .other (toString e)

/-- The text of a file, or why it could not be read. -/
def readFile (path : String) : IO (Except Obstacle String) := do
  match ← (IO.FS.readBinFile path).toBaseIO with
  | .ok bytes =>
    match String.fromUTF8? bytes with
    | some text => pure (.ok text)
    | none => pure (.error .notText)
  | .error e => pure (.error (obstacle e))

/-- The files that a command line names, as far as it can be understood. -/
def readNamed (arguments : List String) : IO (String → Except Obstacle String) := do
  match Arguments.ofList arguments with
  | .error _ => pure fun _ => .error .missing
  | .ok a =>
    let source ← readFile a.source
    let reply ← readFile a.reply
    pure fun path => if path = a.source then source else reply

end Marginalia.Replay

open Marginalia Marginalia.Replay in
/-- Replays what the arguments name. -/
def main (arguments : List String) : IO UInt32 := do
  let deadline ← IO.getEnv Config.deadlineVariable
  let read ← readNamed arguments
  match run hash (.ofLookup fun _ => deadline) read arguments with
  | .error complaint =>
    IO.eprintln s!"error: {complaint.message}"
    if complaint.wantsHelp then help.forM IO.eprintln
    pure 1
  | .ok (a, text, r) =>
    IO.print r.printed
    for d in r.diagnostics text do
      IO.eprintln d.title
      match d.place? a.source text with
      | some place => IO.eprintln place
      | none => pure ()
    if r.verdict.isNone then IO.eprintln "attempt to add with overflow"
    pure (.ofNat r.status)
