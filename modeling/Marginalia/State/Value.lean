import Marginalia.State.Excerpt
import Marginalia.State.Path

/-!
# State — values

A `Value` is one piece of the state of a program at one step. Values are trees: what is shared or
goes in circles is said by pointers, which name their target by path.
-/

namespace Marginalia

/-- A piece of program state. -/
inductive Value where
  | bool (b : Bool)
  | char (c : Char)
  /-- A whole number of an unsigned type of any width. -/
  | uint (n : Nat)
  /-- A whole number of a signed type of any width. -/
  | int (n : Int)
  | float (x : Binary64)
  | pointer (path : Path)
  | struct (name : String) (fields : List (String × Value))
  /-- A value of an enum; the fields are those of its variant. -/
  | enum (name variant : String) (fields : List (String × Value))
  /-- Text as code units. -/
  | string (units : Excerpt UInt32)
  | array (items : Excerpt Value)
  /-- Memory that is there but holds nothing. -/
  | unallocated
deriving Repr, Inhabited

namespace Value

/-- A text, one code unit for each character. -/
def ofText (s : String) : Value := .string (.complete (s.toList.map Char.val))

def list (items : List Value) : Value := .array (.complete items)

/-- The name of the kind of a value. -/
def kind : Value → String
  | .bool _ => "Bool"
  | .char _ => "Char"
  | .uint _ => "Uint"
  | .int _ => "Int"
  | .float _ => "Float"
  | .pointer _ => "Pointer"
  | .struct _ _ => "Struct"
  | .enum _ _ _ => "Enum"
  | .string _ => "String"
  | .array _ => "Array"
  | .unallocated => "Unallocated"

/-- The fields of a struct or enum, in order. -/
def fields? : Value → Option (List (String × Value))
  | .struct _ fields => some fields
  | .enum _ _ fields => some fields
  | _ => none

mutual

/-- Every path that the value points along, from its front to its end. -/
def pointers : Value → List Path
  | .pointer path => [path]
  | .struct _ fields => pointersOfFields fields
  | .enum _ _ fields => pointersOfFields fields
  | .array ⟨front, last, _⟩ => pointersOfItems front ++ pointersOfLast last
  | _ => []

/-- The paths in a list of fields. -/
def pointersOfFields : List (String × Value) → List Path
  | [] => []
  | (_, value) :: fields => value.pointers ++ pointersOfFields fields

/-- The paths in a list of items. -/
def pointersOfItems : List Value → List Path
  | [] => []
  | value :: items => value.pointers ++ pointersOfItems items

/-- The paths in the last element of an excerpt. -/
def pointersOfLast : Option Value → List Path
  | none => []
  | some value => value.pointers

end

/-! ## Equality of numbers -/

mutual

/-- The same value, doubles compared as numbers. -/
def agrees : Value → Value → Bool
  | .bool a, .bool b => a == b
  | .char a, .char b => a == b
  | .uint a, .uint b => a == b
  | .int a, .int b => a == b
  | .float a, .float b => a.numericEq b
  | .pointer a, .pointer b => a == b
  | .struct n fs, .struct m gs => n == m && fieldsAgree fs gs
  | .enum n v fs, .enum m w gs => n == m && v == w && fieldsAgree fs gs
  | .string a, .string b => a == b
  | .array ⟨xs, x, k⟩, .array ⟨ys, y, l⟩ => itemsAgree xs ys && lastAgrees x y && k == l
  | .unallocated, .unallocated => true
  | _, _ => false

/-- The same fields in the same order. -/
def fieldsAgree : List (String × Value) → List (String × Value) → Bool
  | [], [] => true
  | (n, a) :: fs, (m, b) :: gs => n == m && a.agrees b && fieldsAgree fs gs
  | _, _ => false

/-- The same items in the same order. -/
def itemsAgree : List Value → List Value → Bool
  | [], [] => true
  | a :: xs, b :: ys => a.agrees b && itemsAgree xs ys
  | _, _ => false

/-- The same last element, or none in both. -/
def lastAgrees : Option Value → Option Value → Bool
  | none, none => true
  | some a, some b => a.agrees b
  | _, _ => false

end

end Value

end Marginalia
