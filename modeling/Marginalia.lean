import Marginalia.Main
import Marginalia.Session.Desk
import Marginalia.Proofs.Overlay.Store
import Marginalia.Proofs.Session.Flight
import Marginalia.Proofs.Session.Run
import Marginalia.Proofs.Session.Waiting
import Marginalia.Proofs.Session.Course
import Marginalia.Proofs.Session.Freshness
import Marginalia.Proofs.Session.Phase
import Marginalia.Proofs.Session.Failure
import Marginalia.Proofs.Session.Mirror
import Marginalia.Proofs.Overlay.Placement
import Marginalia.Proofs.Text.Editing
import Marginalia.Proofs.Text.Mapping
import Marginalia.Proofs.Overlay.Order
import Marginalia.Proofs.Session.Independence
import Marginalia.Proofs.Trace.Playing
import Marginalia.Proofs.Session.Playback
import Marginalia.Proofs.State.Elision
import Marginalia.Proofs.Text.Utf8
import Marginalia.Proofs.Json.Token
import Marginalia.Proofs.Json.Node
import Marginalia.Proofs.Json.Decoder
import Marginalia.Proofs.State.Number
import Marginalia.Proofs.State.Codec
import Marginalia.Proofs.Trace.Gaps
import Marginalia.Proofs.Analysis.Codec
import Marginalia.Proofs.Trace.Codec
import Marginalia.Proofs.Exchange.Reply
import Marginalia.Proofs.Json.Bound
import Marginalia.Proofs.Json.BoundKinds
import Marginalia.Proofs.State.Bound
import Marginalia.Proofs.Analysis.Bound
import Marginalia.Proofs.Trace.Bound
import Marginalia.Proofs.Exchange.Canonical
import Marginalia.Proofs.Trace.Sound
import Marginalia.Proofs.State.Included
import Marginalia.Proofs.State.Window
import Marginalia.Proofs.Trace.Walk
import Marginalia.Proofs.Session.Showing
import Marginalia.Proofs.Trace.Sorting
import Marginalia.Proofs.Text.Lines
import Marginalia.Proofs.Session.Hiding
import Marginalia.Proofs.Json.Spans
import Marginalia.Proofs.Json.Literal
import Marginalia.Proofs.Json.Beside
import Marginalia.Proofs.State.Wide
import Marginalia.Proofs.Json.Enforce
import Marginalia.Proofs.Json.EnforceKinds
import Marginalia.Proofs.State.Overfull
import Marginalia.Proofs.Trace.Counting
import Marginalia.Proofs.Json.Reach
import Marginalia.Proofs.Exchange.Excerpts
import Marginalia.Proofs.Overlay.Sequence
import Marginalia.Proofs.Trace.Pointer
import Marginalia.Proofs.Text.Position
import Marginalia.Proofs.Trace.Display
import Marginalia.Proofs.Replay.Options
import Marginalia.Proofs.Replay.Telling
import Marginalia.Proofs.Replay.Places
import Marginalia.Proofs.Replay.Status
