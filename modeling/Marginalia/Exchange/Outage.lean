import Marginalia.Exchange.Reply

/-!
# Exchange — answers and outages

Whoever is asked may answer with a text, may turn out to be unreachable, or may stay silent until
the deadline is over. Only a text that is a reply to the command is of use.
-/

namespace Marginalia

/-- What comes of a request. -/
inductive Answer where
  | text (raw : String)
  /-- The request could not be carried over. -/
  | unreachable (reason : String)
  /-- Nothing came before the deadline. -/
  | silence
deriving DecidableEq, Repr

/-- Why there is no reply. -/
inductive Outage where
  | transport (reason : String)
  /-- The deadline, in milliseconds, has passed. -/
  | timeout (deadline : Nat)
  | malformed (m : Malformed)
deriving DecidableEq, Repr

def Outage.message : Outage → String
  | .transport reason => s!"transport failed: {reason}"
  | .timeout deadline => s!"no response within {deadline}ms"
  | .malformed m => s!"malformed response: {m.message}"

/-- The reply to a command in an answer. -/
def Answer.reply (c : Command) (deadline : Nat) : Answer → Except Outage Reply
  | .text raw => (Reply.decode c raw).mapError Outage.malformed
  | .unreachable reason => .error (.transport reason)
  | .silence => .error (.timeout deadline)

end Marginalia
