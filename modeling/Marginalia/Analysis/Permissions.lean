import Marginalia.Json.Tagged
import Marginalia.Json.Tree

/-!
# Analysis — permissions

What a place of a program may be used for at one point: to be read, to be written, to be moved out
of or dropped.
-/

namespace Marginalia

/-- A set of permissions. -/
structure Permissions where
  read : Bool
  write : Bool
  /-- The place is owned: it may be moved out of or dropped. -/
  drop : Bool
deriving DecidableEq, Repr, Inhabited

namespace Permissions

/-- No permission. -/
def empty : Permissions := ⟨false, false, false⟩

/-- The permissions of `p` that `q` lacks. -/
def without (p q : Permissions) : Permissions :=
  ⟨p.read && !q.read, p.write && !q.write, p.drop && !q.drop⟩

/-- A letter for each permission, in a fixed order. -/
def letters (p : Permissions) : List Char :=
  (if p.read then ['R'] else []) ++ (if p.write then ['W'] else []) ++
    (if p.drop then ['D'] else [])

def text (p : Permissions) : String := if p = empty then "∅" else String.ofList p.letters

def toJson (p : Permissions) : Json :=
  .object [("read", .bool p.read), ("write", .bool p.write), ("drop", .bool p.drop)]

def decoder : Json.Decoder Permissions :=
  .record "PermissionsWire"
    (mk <$> .required "read" .bool <*> .required "write" .bool <*> .required "drop" .bool)

end Permissions

end Marginalia
