import Marginalia.State.Value
import Marginalia.Text.Blank
import Marginalia.Json.Printer

/-!
# State — values as messages

Whole numbers of any width are written as decimal strings, and the doubles that are no numbers by
name. A whole number may also be given as a plain numeral of 64 bits; a wider one was rounded to a
double when it was read, and is refused.
-/

namespace Marginalia

/-! ## Whole numbers of any width -/

/-- Decimal digits with underscores between or after them. -/
def readDigits? (text : List Char) : Option Nat :=
  match text with
  | c :: _ =>
    if c.isDigit && text.all fun c => c.isDigit || c = '_' then
      some (Nat.ofDigitChars 10 (text.filter (· ≠ '_')) 0)
    else none
  | [] => none

/-- Digits with at most one sign before them. -/
def readWhole? : List Char → Option Int
  | '-' :: text => (readDigits? text).map fun n => -(n : Int)
  | '+' :: text => (readDigits? text).map fun n => (n : Int)
  | text => (readDigits? text).map fun n => (n : Int)

namespace Json.Decoder

/-- A whole number of any width. -/
def wide : Decoder Int := fun p node =>
  let wanted := "a 64-bit integer or a decimal string"
  match node with
  | .number n =>
    match n.whole? with
    | some k => .ok k
    | none => .error (wrongType wanted node)
  | .string (some s) =>
    match readWhole? (Text.trim s.toList) with
    | some k => .ok k
    | none => .error (.mismatch (.wrongValue (.string s) wanted))
  | node => .error (wrongTypeInside wanted p node)

/-- A whole number of any width that is not negative. -/
def wideNat : Decoder Nat :=
  check wide fun n =>
    if 0 ≤ n then .ok n.toNat else .error s!"negative value {n} for an unsigned integer"

/-- A double: a number, or the name of one that is none. -/
def float : Decoder Binary64 := fun p node =>
  let wanted := "a number or one of \"NaN\", \"Infinity\", \"-Infinity\""
  match node with
  | .number n =>
    match n.whole? with
    | some k =>
      match Binary64.ofDecimal? (k < 0) k.natAbs 0 with
      | some x => .ok x
      | none => .error .numberTooLarge
    | none =>
      match Binary64.ofDecimal? n.negative n.digits n.scale with
      | some x => .ok x
      | none => .error .numberTooLarge
  | .string (some s) =>
    if s = "NaN" then .ok .nan
    else if s = "Infinity" then .ok (.infinite false)
    else if s = "-Infinity" then .ok (.infinite true)
    else .error (.mismatch (.wrongValue (.string s) wanted))
  | node => .error (wrongTypeInside wanted p node)

end Json.Decoder

def Binary64.toJson : Binary64 → Json
  | .finite negative rank => .real negative rank
  | .infinite false => .string "Infinity"
  | .infinite true => .string "-Infinity"
  | .nan => .string "NaN"

/-! ## Values -/

namespace Value

mutual

def toJson : Value → Json
  | .bool b => .tagged "Bool" (.bool b)
  | .char c => .tagged "Char" (.string (String.singleton c))
  | .uint n => .tagged "Uint" (.string (toString n))
  | .int n => .tagged "Int" (.string (toString n))
  | .float x => .tagged "Float" x.toJson
  | .pointer path => .tagged "Pointer" path.toJson
  | .struct name fields =>
    .tagged "Struct" (.object [("name", .string name), ("fields", .array (fieldsToJson fields))])
  | .enum name variant fields =>
    .tagged "Enum" (.object
      [("name", .string name), ("variant", .string variant),
        ("fields", .array (fieldsToJson fields))])
  | .string units => .tagged "String" (units.toJson fun u => .ofNat u.toNat)
  | .array ⟨front, last, length⟩ =>
    .tagged "Array" (Excerpt.assemble (itemsToJson front) (lastToJson last) length)
  | .unallocated => .kindOnly "Unallocated"

/-- Fields as pairs of name and value. -/
def fieldsToJson : List (String × Value) → List Json
  | [] => []
  | (name, value) :: fields => .array [.string name, value.toJson] :: fieldsToJson fields

/-- The messages of a list of items. -/
def itemsToJson : List Value → List Json
  | [] => []
  | value :: items => value.toJson :: itemsToJson items

/-- The message of the last element of an excerpt. -/
def lastToJson : Option Value → Option Json
  | none => none
  | some value => some value.toJson

end

/-- The kinds of values, given how to decode the values inside. -/
def kinds (inner : Json.Decoder Value) : Json.Kinds Value :=
  let fields : Json.Decoder (List (String × Value)) := .list (.pair .string inner)
  [("Bool", .single (.map bool .bool)),
    ("Char", .single (.map char .char)),
    ("Uint", .single (.map uint .wideNat)),
    ("Int", .single (.map int .wide)),
    ("Float", .single (.map float .float)),
    ("Pointer", .single (.map pointer Path.decoder)),
    ("Struct", .fields (struct <$> .required "name" .string <*> .required "fields" fields)),
    ("Enum", .fields (enum <$> .required "name" .string <*> .required "variant" .string <*>
      .required "fields" fields)),
    ("String", .single (.map string (Excerpt.decoder .word32))),
    ("Array", .single (.map array (Excerpt.decoder inner))),
    ("Unallocated", .bare unallocated)]

def decoder : Json.Decoder Value := .fix fun inner => .beside "Value" (kinds inner)

/-- The text of a value. -/
def encode (v : Value) : String := v.toJson.text

/-- The value of a text that came as bytes. -/
def decode (bytes : ByteArray) : Except Json.Fault Value :=
  Json.decode decoder (Text.glyphs bytes)

end Value

end Marginalia
