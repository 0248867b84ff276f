import Marginalia.Analysis.Permissions
import Marginalia.Text.Codec

/-!
# Analysis — changes at a statement

What a statement changes. Each fact about a place begins to hold, ceases to hold or stays as it is;
a `PlaceChange` collects the facts about one place, a `Statement` the places that one statement is
reported for.
-/

namespace Marginalia

/-- How a fact changes. -/
inductive Shift (α : Type) where
  /-- It begins to hold. -/
  | high
  /-- It ceases to hold. -/
  | low
  /-- It stays as it is, perhaps with the value it has. -/
  | none (value : Option α)
deriving DecidableEq, Repr, Inhabited

/-- How the permissions on a place change. -/
structure PermissionShifts where
  read : Shift Bool
  write : Shift Bool
  drop : Shift Bool
deriving DecidableEq, Repr, Inhabited

/-- Everything that changes about one place. -/
structure PlaceChange where
  isLive : Shift Bool
  /-- The key of the move that emptied the place. -/
  moved : Shift UInt32
  /-- The key of the loan that takes reading away. -/
  readRefined : Shift UInt32
  /-- The key of the loan that takes writing away. -/
  writeRefined : Shift UInt32
  /-- The key of the loan that takes ownership away. -/
  dropRefined : Shift UInt32
  permissions : PermissionShifts
deriving DecidableEq, Repr, Inhabited

/-- The changes at the end of one statement. -/
structure Statement where
  location : Span
  /-- Places with their changes, in the order of display. -/
  places : List (String × PlaceChange)
deriving DecidableEq, Repr, Inhabited

/-- The fact does not stay as it is. -/
def Shift.isChange : Shift α → Bool
  | .none _ => false
  | _ => true

/-- Some fact about the place does not stay as it is. -/
def PlaceChange.isChange (c : PlaceChange) : Bool :=
  c.isLive.isChange || c.moved.isChange || c.readRefined.isChange || c.writeRefined.isChange ||
    c.dropRefined.isChange || c.permissions.read.isChange || c.permissions.write.isChange ||
    c.permissions.drop.isChange

/-- How many places are reported. -/
def Statement.label (s : Statement) : String := s!"{s.places.length} places"

/-! ## As messages -/

namespace Shift

def toJson (f : α → Json) : Shift α → Json
  | .high => .kindOnly "High"
  | .low => .kindOnly "Low"
  | .none value => .tagged "None" (.orNull f value)

def decoder (d : Json.Decoder α) : Json.Decoder (Shift α) :=
  .inside "ValueStep"
    [("High", .bare high), ("Low", .bare low), ("None", .fields (none <$> .optional "value" d))]

/-- A fact with the key of what changed it. -/
def keyed : Json.Decoder (Shift UInt32) := decoder .word32

/-- A plain fact. -/
def plain : Json.Decoder (Shift Bool) := decoder .bool

end Shift

namespace PermissionShifts

def toJson (s : PermissionShifts) : Json :=
  .object [("read", s.read.toJson .bool), ("write", s.write.toJson .bool),
    ("drop", s.drop.toJson .bool)]

def decoder : Json.Decoder PermissionShifts :=
  .record "PermissionsDiff" (mk <$> .required "read" Shift.plain <*>
    .required "write" Shift.plain <*> .required "drop" Shift.plain)

end PermissionShifts

namespace PlaceChange

/-- The key of a loan or move. -/
def keyToJson (key : UInt32) : Json := .ofNat key.toNat

def toJson (c : PlaceChange) : Json :=
  .object [("is_live", c.isLive.toJson .bool), ("path_moved", c.moved.toJson keyToJson),
    ("loan_read_refined", c.readRefined.toJson keyToJson),
    ("loan_write_refined", c.writeRefined.toJson keyToJson),
    ("loan_drop_refined", c.dropRefined.toJson keyToJson),
    ("permissions", c.permissions.toJson)]

def decoder : Json.Decoder PlaceChange :=
  .record "PermissionsDataDiff" (mk <$> .required "is_live" Shift.plain <*>
    .required "path_moved" Shift.keyed <*> .required "loan_read_refined" Shift.keyed <*>
    .required "loan_write_refined" Shift.keyed <*> .required "loan_drop_refined" Shift.keyed <*>
    .required "permissions" PermissionShifts.decoder)

end PlaceChange

namespace Statement

/-- A place with its changes. -/
def placeToJson : String × PlaceChange → Json
  | (place, change) => .array [.string place, change.toJson]

def toJson (s : Statement) : Json :=
  .object [("location", s.location.toJson), ("state", .list placeToJson s.places)]

def decoder : Json.Decoder Statement :=
  .record "PermissionsStateStep" (mk <$> .required "location" Span.decoder <*>
    .required "state" (.list (.pair .string PlaceChange.decoder)))

end Statement

end Marginalia
