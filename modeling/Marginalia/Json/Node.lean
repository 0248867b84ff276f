import Marginalia.Json.Token

/-!
# Json — what a text was read as

Reading never fails. It yields a tree that keeps the place where the text stopped being a message:
a value that could not be read is `broken`, and an array or object that was not brought to its end
is not `closed`. Someone who decodes the tree in reading order therefore meets a fault of the text
exactly where it stands among the other things to object to.
-/

namespace Marginalia.Json

/-- A value as read. A string or key is absent when it spells no text. -/
inductive Node where
  | null
  | bool (b : Bool)
  | number (n : Numeral)
  | string (s : Option String)
  | array (items : List Node) (closed : Bool)
  | object (members : List (Option String × Node)) (closed : Bool)
  /-- What stands where the key of a member was wanted. It comes last in an object that is not
  closed, beside an absent key. -/
  | misplaced (found : Node)
  | broken
deriving Repr, Inhabited

/-- A key with its value. -/
abbrev Member := Option String × Node

namespace Node

mutual

/-- The value at the front of the tokens, and the tokens after it. -/
def read : Nat → List Token → Node × List Token
  | fuel + 1, .openArray :: rest =>
    match rest with
    | .closeArray :: rest => (.array [] true, rest)
    | rest =>
      let (items, closed, rest) := readItems fuel rest
      (.array items closed, rest)
  | fuel + 1, .openObject :: rest =>
    match rest with
    | .closeObject :: rest => (.object [] true, rest)
    | rest =>
      let (members, closed, rest) := readMembers fuel rest
      (.object members closed, rest)
  | _, .null :: rest => (.null, rest)
  | _, .bool b :: rest => (.bool b, rest)
  | _, .number n :: rest => (.number n, rest)
  | _, .string s :: rest => (.string s, rest)
  | _, _ => (.broken, [])

/-- The items up to the end of the array, and whether it was there. -/
def readItems : Nat → List Token → List Node × Bool × List Token
  | 0, _ => ([.broken], false, [])
  | fuel + 1, tokens =>
    let (item, rest) := read fuel tokens
    match rest with
    | .comma :: rest =>
      let (items, closed, rest) := readItems fuel rest
      (item :: items, closed, rest)
    | .closeArray :: rest => ([item], true, rest)
    | _ => ([item], false, [])

/-- The members up to the end of the object, and whether it was there. -/
def readMembers : Nat → List Token → List Member × Bool × List Token
  | 0, _ => ([], false, [])
  | fuel + 1, .string key :: .colon :: rest =>
    let (value, rest) := read fuel rest
    match rest with
    | .comma :: rest =>
      let (members, closed, rest) := readMembers fuel rest
      ((key, value) :: members, closed, rest)
    | .closeObject :: rest => ([(key, value)], true, rest)
    | _ => ([(key, value)], false, [])
  | _ + 1, .string key :: _ => ([(key, .broken)], false, [])
  | fuel + 1, tokens => ([(none, .misplaced (read fuel tokens).1)], false, [])

end

mutual

/-- Nothing in the value is broken or left open. Numbers and strings are not looked into. -/
def whole : Node → Bool
  | .array items closed => closed && wholeItems items
  | .object members closed => closed && wholeMembers members
  | .misplaced _ | .broken => false
  | _ => true

/-- Every item is whole. -/
def wholeItems : List Node → Bool
  | [] => true
  | item :: items => item.whole && wholeItems items

/-- Every value is whole. -/
def wholeMembers : List Member → Bool
  | [] => true
  | (_, value) :: members => value.whole && wholeMembers members

end

/-- The value of a text, and whether the text ended with it. -/
def ofText (text : List Text.Glyph) : Node × Bool :=
  let tokens := tokens text
  let (root, rest) := read (2 * tokens.length) tokens
  (root, rest.isEmpty)

end Node

end Marginalia.Json
