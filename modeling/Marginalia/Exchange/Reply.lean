import Marginalia.Analysis.Body
import Marginalia.Exchange.Command
import Marginalia.Trace.Basic

/-!
# Exchange — replies

The reply to a command is a refusal, or the payload that the command reports: an execution, or what
was found in each body. A body that could not be analysed is refused by itself. A text does not say
which command it replies to, so it is read as a reply to the one that was asked for.
-/

namespace Marginalia

/-- Why nothing is reported. -/
inductive Refusal where
  /-- The program could not be built, perhaps because of a known place. -/
  | build (reason : String) (span : Option Span)
  /-- The analysis itself failed. -/
  | analysis (reason : String)
deriving DecidableEq, Repr

/-- What is reported about one body. -/
abbrev Outcome (α : Type) := Except Refusal α

/-- What a command reports. -/
inductive Payload where
  | permissions (units : List (Outcome BodyFacts))
  | boundaries (units : List (Outcome BodyUses))
  | interpreter (raw : RawTrace)
deriving Repr

/-- The command that reports such a payload. -/
def Payload.command : Payload → Command
  | permissions _ => .permissions
  | boundaries _ => .boundaries
  | interpreter _ => .interpreter

/-- The reply to a command. -/
abbrev Reply := Outcome Payload

/-- Why something is not the reply to a command. -/
inductive Malformed where
  /-- The text cannot be read as a reply to the command. -/
  | unreadable (command : Command) (fault : Json.Fault)
  /-- The payload is that of another command. -/
  | mismatch (expected found : Command)
deriving DecidableEq, Repr

def Malformed.message : Malformed → String
  | unreadable command fault => s!"malformed `{command.name}` response: {fault.message}"
  | mismatch expected found => s!"`{found.name}` payload for a `{expected.name}` request"

namespace Refusal

/-- The reason alone. -/
def reason : Refusal → String
  | build reason _ => reason
  | analysis reason => reason

def span? : Refusal → Option Span
  | build _ span => span
  | analysis _ => none

def message : Refusal → String
  | build reason _ => s!"build failed: {reason}"
  | analysis reason => s!"analysis failed: {reason}"

end Refusal

/-! ## As messages -/

namespace Refusal

def toJson : Refusal → Json
  | build reason span =>
    .object ([("type", .string "BuildError"), ("msg", .string reason)] ++
      Json.given "range" Span.toJson span)
  | analysis reason => .object [("type", .string "AnalysisError"), ("msg", .string reason)]

def decoder : Json.Decoder Refusal :=
  .inside "BackendError"
    [("BuildError", .titled "Build"
      (build <$> .required "msg" .string <*> .optional "range" Span.decoder)),
      ("AnalysisError", .titled "Analysis" (analysis <$> .required "msg" .string))]

end Refusal

namespace Outcome

def toJson (f : α → Json) : Outcome α → Json
  | .ok a => .object [("Ok", f a)]
  | .error refusal => .object [("Err", refusal.toJson)]

def decoder (d : Json.Decoder α) : Json.Decoder (Outcome α) := .result d Refusal.decoder

end Outcome

def Payload.toJson : Payload → Json
  | permissions units => .list (Outcome.toJson BodyFacts.toJson) units
  | boundaries units => .list (Outcome.toJson BodyUses.toJson) units
  | interpreter raw => raw.toJson

namespace Reply

def toJson (r : Reply) : Json := Outcome.toJson Payload.toJson r

/-- The text of a reply. -/
def encode (r : Reply) : String := (toJson r).text

/-- The reply to a command that a text is, with a payload of one kind. -/
def read (c : Command) (d : Json.Decoder α) (payload : α → Payload) (text : String) :
    Except Malformed Reply :=
  match Json.decodeText (Outcome.decoder d) text with
  | .error fault => .error (.unreadable c fault)
  | .ok outcome => .ok (outcome.map payload)

/-- The reply to a command that a text is. -/
def decode (c : Command) (text : String) : Except Malformed Reply :=
  match c with
  | .permissions => read c (.list (Outcome.decoder BodyFacts.decoder)) .permissions text
  | .boundaries => read c (.list (Outcome.decoder BodyUses.decoder)) .boundaries text
  | .interpreter => read c RawTrace.decoder .interpreter text

end Reply

end Marginalia
