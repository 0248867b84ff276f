import Marginalia.State.Codec
import Marginalia.State.Snapshot
import Marginalia.Text.Span
import Marginalia.Text.Codec

/-!
# Trace — frames and steps

A step of an execution holds the stack frames, outermost first, and the heap. It is shown at the
place where its innermost frame is executing.
-/

namespace Marginalia

/-- A local variable. -/
structure Binding where
  name : String
  value : Value
deriving Repr, Inhabited

/-- A call in progress. -/
structure Frame where
  /-- The name of the function. -/
  name : String
  /-- The body of the function. -/
  body : Span
  /-- What is being executed. -/
  location : Span
  /-- The locals in the order of their declaration. -/
  locals : List Binding
deriving Repr, Inhabited

/-- A step as it is reported. -/
structure RawStep where
  frames : List Frame
  heap : List Value
deriving Repr, Inhabited

/-- A step whose place lay in the text at the time. -/
structure Step where
  /-- The position among the reported steps. -/
  index : Nat
  span : Span
  frames : List Frame
  heap : List Value
deriving Repr, Inhabited

/-- The first local of this name. -/
def Frame.local? (f : Frame) (name : String) : Option Value :=
  (f.locals.find? fun l => l.name = name).map Binding.value

/-- Where the innermost frame is executing. -/
def RawStep.span? (s : RawStep) : Option Span := s.frames.getLast?.map Frame.location

/-- A reported step at its place. -/
def RawStep.placed (s : RawStep) (index : Nat) (span : Span) : Step :=
  ⟨index, span, s.frames, s.heap⟩

namespace Step

def innermost? (s : Step) : Option Frame := s.frames.getLast?

/-- Every value of the step: the locals frame by frame, then the heap. -/
def values (s : Step) : List Value :=
  (s.frames.flatMap fun f => f.locals.map Binding.value) ++ s.heap

/-- The state that paths are followed in. -/
def snapshot (s : Step) : Snapshot :=
  ⟨s.frames.map fun f => f.locals.map fun l => (l.name, l.value), s.heap⟩

end Step

/-! ## As messages -/

namespace Binding

def toJson (b : Binding) : Json := .object [("name", .string b.name), ("value", b.value.toJson)]

def decoder : Json.Decoder Binding :=
  .record "Local" (mk <$> .required "name" .string <*> .required "value" Value.decoder)

end Binding

namespace Frame

def toJson (f : Frame) : Json :=
  .object [("name", .string f.name), ("body_range", f.body.toJson),
    ("location", f.location.toJson), ("locals", .list Binding.toJson f.locals)]

def decoder : Json.Decoder Frame :=
  .record "Frame" (mk <$> .required "name" .string <*> .required "body_range" Span.decoder <*>
    .required "location" Span.decoder <*> .required "locals" (.list Binding.decoder))

end Frame

namespace RawStep

def toJson (s : RawStep) : Json :=
  .object [("frames", .list Frame.toJson s.frames), ("heap", .list Value.toJson s.heap)]

def decoder : Json.Decoder RawStep :=
  .record "RawStep" (mk <$> .required "frames" (.list Frame.decoder) <*>
    .defaulted "heap" (.list Value.decoder) [])

end RawStep

end Marginalia
