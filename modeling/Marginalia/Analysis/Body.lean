import Marginalia.Analysis.Use
import Marginalia.Analysis.Change

/-!
# Analysis — bodies of functions

What an analysis reports about the body of one function: the uses in it, and, where more was asked
for, the changes at its statements and the loans made in it.
-/

namespace Marginalia

/-- A borrow and where it is alive. -/
structure Loan where
  key : UInt32
  /-- The borrowing expression. -/
  issuedAt : Span
  start : Nat
  stop : Nat
  refined : List Span
deriving DecidableEq, Repr, Inhabited

/-- Everything that is known about a body. -/
structure BodyFacts where
  body : Span
  uses : List Use
  statements : List Statement
  loans : List Loan
deriving DecidableEq, Repr

/-- The uses in a body. -/
structure BodyUses where
  body : Span
  uses : List Use
deriving DecidableEq, Repr

/-- From the start of the loan to its last use; empty if the last use would come first. -/
def Loan.span (l : Loan) : Span := ⟨l.start, max l.stop l.start⟩

/-! ## As messages -/

namespace Loan

def toJson (l : Loan) : Json :=
  .object [("key", .ofNat l.key.toNat), ("issued_at", l.issuedAt.toJson),
    ("start", .ofNat l.start), ("end", .ofNat l.stop),
    ("refined_ranges", .list Span.toJson l.refined)]

def decoder : Json.Decoder Loan :=
  .record "LoanRegion" (mk <$> .required "key" .word32 <*> .required "issued_at" Span.decoder <*>
    .required "start" .size <*> .required "end" .size <*>
    .defaulted "refined_ranges" (.list Span.decoder) [])

end Loan

namespace BodyFacts

def toJson (b : BodyFacts) : Json :=
  .object [("body_range", b.body.toJson), ("boundaries", .list Use.toJson b.uses),
    ("steps", .list Statement.toJson b.statements), ("loans", .list Loan.toJson b.loans)]

def decoder : Json.Decoder BodyFacts :=
  .record "AnalysisOutput" (mk <$> .required "body_range" Span.decoder <*>
    .defaulted "boundaries" (.list Use.decoder) [] <*>
    .defaulted "steps" (.list Statement.decoder) [] <*>
    .defaulted "loans" (.list Loan.decoder) [])

end BodyFacts

namespace BodyUses

def toJson (b : BodyUses) : Json :=
  .object [("body_range", b.body.toJson), ("boundaries", .list Use.toJson b.uses)]

def decoder : Json.Decoder BodyUses :=
  .record "BodyBoundaries" (mk <$> .required "body_range" Span.decoder <*>
    .defaulted "boundaries" (.list Use.decoder) [])

end BodyUses

end Marginalia
