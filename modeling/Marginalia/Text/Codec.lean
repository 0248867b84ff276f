import Marginalia.Text.Span
import Marginalia.Json.Tagged
import Marginalia.Json.Printer

/-!
# Text — places as messages
-/

namespace Marginalia

namespace Span

def toJson (s : Span) : Json :=
  .object [("char_start", .ofNat s.start), ("char_end", .ofNat s.stop)]

def decoder : Json.Decoder Span :=
  .record "CharRange" (mk <$> .required "char_start" .size <*> .required "char_end" .size)

end Span

/-- A line of a text, counted from zero. -/
structure LineNumber where
  line : Nat
deriving DecidableEq, Repr

namespace LineNumber

def toJson (l : LineNumber) : Json := .object [("line", .ofNat l.line)]

def decoder : Json.Decoder LineNumber := .record "LinePos" (mk <$> .required "line" .size)

end LineNumber

end Marginalia
