import Marginalia.Replay.Folder
import Marginalia.Session.Render

/-!
# Replay — the command line

A replay is asked for by a command, a source file and a file with the reply, and then any number of
options: `--hide` with the number of a line, and switches. Options are read from left to right; the
first one that is not understood decides what is complained about.
-/

namespace Marginalia.Replay

/-- Why a replay cannot be done. -/
inductive Complaint where
  | usage
  | unknownOption (option : String)
  | badLine (text : String)
  | unknownCommand (e : UnknownCommand)
  /-- No text could be read at a path. -/
  | unreadable (path : String) (obstacle : Obstacle)
deriving DecidableEq, Repr

namespace Complaint

def message : Complaint → String
  | usage => "usage: lens-replay <command> <source-file> <response.json> [options]"
  | unknownOption option => s!"unknown option `{option}`"
  | badLine text => s!"`{text}` is not a line number (lines start at 1)"
  | unknownCommand e => e.message
  | unreadable path obstacle => s!"cannot read {path}: {obstacle.message}"

/-- The command line is explained after the complaint. -/
def wantsHelp : Complaint → Bool
  | usage | unknownOption _ => true
  | _ => false

end Complaint

/-- An option that is on or off. -/
inductive Switch where
  | all
  | noBoundaries
  | noStepper
  | shouldFail
deriving DecidableEq, Repr

namespace Switch

def every : List Switch := [all, noBoundaries, noStepper, shouldFail]

def text : Switch → String
  | all => "--all"
  | noBoundaries => "--no-boundaries"
  | noStepper => "--no-stepper"
  | shouldFail => "--should-fail"

def ofText? (text : String) : Option Switch := every.find? fun s => s.text = text

end Switch

/-- The option that the number of a line follows. -/
def hideOption : String := "--hide"

/-- What is asked for. -/
structure Arguments where
  command : Command
  /-- The path of the source file. -/
  source : String
  /-- The path of the reply. -/
  reply : String
  /-- The lines to hide, counted from zero. -/
  hidden : List Nat
  view : PermissionsView
  /-- The program is expected to fault. -/
  shouldFault : Bool
deriving DecidableEq, Repr

/-- The line, counted from zero, that a text names counting from one. -/
def readLine? (text : String) : Option Nat :=
  match Number.readCount? wordBound text.toList with
  | some (line + 1) => some line
  | _ => none

namespace Arguments

/-- Nothing but what has to be given. -/
def plain (command : Command) (source reply : String) : Arguments :=
  ⟨command, source, reply, [], .initial, false⟩

/-- Turns a switch on. -/
def set (a : Arguments) : Switch → Arguments
  | .all => { a with view := { a.view with coverage := .all } }
  | .noBoundaries => { a with view := { a.view with showsUses := false } }
  | .noStepper => { a with view := { a.view with showsStatements := false } }
  | .shouldFail => { a with view := { a.view with shouldFail := true }, shouldFault := true }

/-- One more line to hide. -/
def hide (a : Arguments) (line : Nat) : Arguments := { a with hidden := a.hidden ++ [line] }

/-- Reads the options after what has to be given. -/
def readOptions (a : Arguments) : List String → Except Complaint Arguments
  | [] => .ok a
  | option :: rest =>
    if option = hideOption then
      match rest with
      | [] => .error .usage
      | text :: rest =>
        match readLine? text with
        | some line => (a.hide line).readOptions rest
        | none => .error (.badLine text)
    else
      match Switch.ofText? option with
      | some s => (a.set s).readOptions rest
      | none => .error (.unknownOption option)

/-- Reads a command line. -/
def ofList : List String → Except Complaint Arguments
  | command :: source :: reply :: options =>
    match Command.ofName? command with
    | .ok command => (plain command source reply).readOptions options
    | .error e => .error (.unknownCommand e)
  | _ => .error .usage

/-- The render that is asked for. -/
def render (a : Arguments) : Render :=
  let job := match a.command with
    | .permissions => .permissions a.view
    | .boundaries => .boundaries
    | .interpreter => .interpreter a.shouldFault
  ⟨job, a.hidden⟩

end Arguments

end Marginalia.Replay
