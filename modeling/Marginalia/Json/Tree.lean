import Marginalia.Number.Binary64

/-!
# Json — trees

The trees that messages are made of, as a writer builds them. A number is a whole number or a
finite double; object members keep their order and may repeat a key.
-/

namespace Marginalia

/-- A message. -/
inductive Json where
  | null
  | bool (b : Bool)
  | whole (n : Int)
  | real (negative : Bool) (rank : Fin Binary64.topRank)
  | string (s : String)
  | array (items : List Json)
  | object (members : List (String × Json))
deriving Repr, Inhabited

namespace Json

def ofNat (n : Nat) : Json := .whole n

/-- The value under a name beside a value that names its kind. -/
def tagged (kind : String) (value : Json) : Json :=
  .object [("type", .string kind), ("value", value)]

/-- A value that is no more than the name of its kind. -/
def kindOnly (kind : String) : Json := .object [("type", .string kind)]

/-- A value that may be missing. -/
def orNull (toJson : α → Json) : Option α → Json
  | none => .null
  | some a => toJson a

/-- A member that is left out where there is nothing to say. -/
def given (name : String) (toJson : α → Json) : Option α → List (String × Json)
  | none => []
  | some a => [(name, toJson a)]

def list (toJson : α → Json) (items : List α) : Json := .array (items.map toJson)

mutual

/-- How many brackets stand inside one another at most. -/
def nesting : Json → Nat
  | .array items => nestingItems items + 1
  | .object members => nestingMembers members + 1
  | _ => 0

/-- The deepest nesting among the items of a list. -/
def nestingItems : List Json → Nat
  | [] => 0
  | item :: items => max item.nesting (nestingItems items)

/-- The deepest nesting among the values of an object. -/
def nestingMembers : List (String × Json) → Nat
  | [] => 0
  | (_, value) :: members => max value.nesting (nestingMembers members)

end

end Json

end Marginalia
