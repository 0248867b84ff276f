import Marginalia.Analysis.Permissions
import Marginalia.Text.Codec

/-!
# Analysis — uses of a place

A `Use` is a point of a program where a place is used, with the permissions that takes and those
that are held there. Where one is missing, a `Cause` may say why.
-/

namespace Marginalia

/-- What took a permission away. -/
inductive Refiner where
  /-- A borrow. -/
  | loan (span : Span)
  /-- A move. -/
  | move (span : Span)
deriving DecidableEq, Repr

/-- The stretch of code in which a permission is taken away. -/
structure Refinement where
  refiner : Refiner
  refined : List Span
  start : Nat
  stop : Nat
deriving DecidableEq, Repr

/-- Why a permission is missing. -/
inductive Cause where
  /-- The type never grants it. -/
  | insufficientType
  /-- A borrow or a move took it away. -/
  | refined (refinement : Refinement)
deriving DecidableEq, Repr

/-- Why each of the permissions is missing, where that is known. -/
structure Explanations where
  read : Option Cause
  write : Option Cause
  drop : Option Cause
deriving DecidableEq, Repr, Inhabited

/-- A point where a place is used. -/
structure Use where
  /-- The offset of the use. -/
  location : Nat
  expected : Permissions
  actual : Permissions
  copied : Bool
  explanations : Explanations
deriving DecidableEq, Repr

namespace Explanations

/-- Nothing is explained. -/
def empty : Explanations := ⟨none, none, none⟩

end Explanations

namespace Use

/-- The permissions that are expected but not held. -/
def missing (u : Use) : Permissions := u.expected.without u.actual

/-- Some permission is missing. -/
def isViolation (u : Use) : Bool := u.missing ≠ .empty

/-- The empty span at the use. -/
def span (u : Use) : Span := .point u.location

/-- What was expected, and what of it is missing. -/
def label (u : Use) : String :=
  if u.isViolation then s!"{u.expected.text} missing {u.missing.text}"
  else s!"{u.expected.text} ok"

end Use

/-! ## As messages -/

namespace Refiner

def toJson : Refiner → Json
  | .loan span => .tagged "Loan" span.toJson
  | .move span => .tagged "Move" span.toJson

def decoder : Json.Decoder Refiner :=
  .beside "Refiner"
    [("Loan", .single (.map loan Span.decoder)), ("Move", .single (.map move Span.decoder))]

end Refiner

namespace Refinement

/-- The members of a refinement. -/
def members (r : Refinement) : List (String × Json) :=
  [("refiner_point", r.refiner.toJson), ("refined_ranges", .list Span.toJson r.refined),
    ("start", .ofNat r.start), ("end", .ofNat r.stop)]

def toJson (r : Refinement) : Json := .object r.members

def decoder : Json.Decoder Refinement :=
  .record "RefinementRegion"
    (mk <$> .required "refiner_point" Refiner.decoder <*>
      .required "refined_ranges" (.list Span.decoder) <*> .required "start" .size <*>
      .required "end" .size)

end Refinement

namespace Cause

def toJson : Cause → Json
  | .insufficientType => .kindOnly "InsufficientType"
  | .refined r => .object (("type", .string "Refined") :: r.members)

def decoder : Json.Decoder Cause :=
  .inside "MissingPermReason"
    [("InsufficientType", .bare insufficientType),
      ("Refined", .single (.map refined Refinement.decoder))]

end Cause

namespace Explanations

def toJson (e : Explanations) : Json :=
  .object (Json.given "read" Cause.toJson e.read ++ Json.given "write" Cause.toJson e.write ++
    Json.given "drop" Cause.toJson e.drop)

def decoder : Json.Decoder Explanations :=
  .record "MissingPermsInfo" (mk <$> .optional "read" Cause.decoder <*>
    .optional "write" Cause.decoder <*> .optional "drop" Cause.decoder)

end Explanations

namespace Use

def toJson (u : Use) : Json :=
  .object [("location", .ofNat u.location), ("expected", u.expected.toJson),
    ("actual", u.actual.toJson), ("was_copied", .bool u.copied),
    ("explanations", u.explanations.toJson)]

def decoder : Json.Decoder Use :=
  .record "PermissionsBoundary" (mk <$> .required "location" .size <*>
    .required "expected" Permissions.decoder <*> .required "actual" Permissions.decoder <*>
    .defaulted "was_copied" .bool false <*>
    .defaulted "explanations" Explanations.decoder .empty)

end Use

end Marginalia
