import Marginalia.Json.Numeral
import Marginalia.Text.Utf8

/-!
# Json — tokens

A message is cut into tokens before its brackets are matched. Where the text stops being a token
the list ends with `Token.stray`, so a reader that gets so far meets the fault there and one that
stops before never sees it.

A string is kept with the characters it spells, or with nothing if an escape in it names half of a
surrogate pair or a byte in it is no character. Such a string is only a fault for someone who wants
its content: a value that is skipped may hold it.
-/

namespace Marginalia.Json

open Text (Glyph)

/-- A piece of a message. -/
inductive Token where
  | openArray
  | closeArray
  | openObject
  | closeObject
  | comma
  | colon
  | null
  | bool (b : Bool)
  | number (n : Numeral)
  | string (s : Option String)
  | stray
deriving DecidableEq, Repr

/-! ## Strings -/

/-- A piece of a string: a character, a code unit written by its number, or a byte. -/
inductive Piece where
  | char (c : Char)
  | unit (n : Nat)
  | byte
deriving DecidableEq, Repr

/-- The value of a hexadecimal digit. -/
def hexValue? (c : Char) : Option Nat :=
  if '0' ≤ c ∧ c ≤ '9' then some (c.toNat - 48)
  else if 'a' ≤ c ∧ c ≤ 'f' then some (c.toNat - 87)
  else if 'A' ≤ c ∧ c ≤ 'F' then some (c.toNat - 55)
  else none

/-- The code unit of four hexadecimal digits, and the text after them. -/
def codeUnit? : List Glyph → Option (Nat × List Glyph)
  | some a :: some b :: some c :: some d :: rest => do
    let a ← hexValue? a
    let b ← hexValue? b
    let c ← hexValue? c
    let d ← hexValue? d
    pure (4096 * a + 256 * b + 16 * c + d, rest)
  | _ => none

/-- The character of a one-letter escape. -/
def shortEscape? (c : Char) : Option Char :=
  if c = '"' ∨ c = '\\' ∨ c = '/' then some c
  else if c = 'b' then some '\x08'
  else if c = 'f' then some '\x0c'
  else if c = 'n' then some '\n'
  else if c = 'r' then some '\r'
  else if c = 't' then some '\t'
  else none

/-- The pieces up to the closing quote, and the text after it; nothing if there is none, or before
it a control character or an unknown escape. -/
def scanString : Nat → List Glyph → Option (List Piece × List Glyph)
  | 0, _ => none
  | _, [] => none
  | fuel + 1, none :: rest => (scanString fuel rest).map fun (ps, r) => (.byte :: ps, r)
  | fuel + 1, some c :: rest =>
    if c = '"' then some ([], rest)
    else if c = '\\' then
      match rest with
      | some e :: rest =>
        if e = 'u' then do
          let (n, rest) ← codeUnit? rest
          let (ps, r) ← scanString fuel rest
          pure (.unit n :: ps, r)
        else do
          let c ← shortEscape? e
          let (ps, r) ← scanString fuel rest
          pure (.char c :: ps, r)
      | _ => none
    else if c.toNat < 0x20 then none
    else (scanString fuel rest).map fun (ps, r) => (.char c :: ps, r)

/-- The characters that pieces spell: code units of a surrogate pair stand side by side and make
one character. -/
def spell : List Piece → Option (List Char)
  | [] => some []
  | .char c :: rest => (spell rest).map (c :: ·)
  | .byte :: _ => none
  | .unit n :: rest =>
    if n < 0xd800 ∨ 0xdfff < n then (spell rest).map (Char.ofNat n :: ·)
    else if 0xdbff < n then none
    else match rest with
      | .unit m :: rest =>
        if 0xdc00 ≤ m ∧ m ≤ 0xdfff then
          (spell rest).map (Char.ofNat (0x10000 + (n - 0xd800) * 0x400 + (m - 0xdc00)) :: ·)
        else none
      | _ => none

/-! ## Numbers -/

/-- The decimal digits at the front of a text, and the text after them. -/
def scanDigits : List Glyph → List Char × List Glyph
  | some c :: rest =>
    if c.isDigit then
      let (ds, r) := scanDigits rest
      (c :: ds, r)
    else ([], some c :: rest)
  | rest => ([], rest)

/-- Digits with at least one among them. -/
def scanDigits1? (text : List Glyph) : Option (List Char × List Glyph) :=
  match scanDigits text with
  | ([], _) => none
  | found => some found

/-- The whole part: a zero alone, or digits that do not start with one. -/
def scanWhole? (text : List Glyph) : Option (List Char × List Glyph) :=
  match scanDigits1? text with
  | some ('0' :: _ :: _, _) => none
  | found => found

/-- The digits after a point, if there is one. -/
def scanFraction? : List Glyph → Option (List Char × List Glyph)
  | some '.' :: rest => scanDigits1? rest
  | rest => some ([], rest)

/-- The power of ten after an `e`, if there is one. -/
def scanExponent? : List Glyph → Option (Option Int × List Glyph)
  | some 'e' :: rest | some 'E' :: rest =>
    let (negative, rest) := match rest with
      | some '-' :: rest => (true, rest)
      | some '+' :: rest => (false, rest)
      | rest => (false, rest)
    (scanDigits1? rest).map fun (ds, r) =>
      let n : Int := Nat.ofDigitChars 10 ds 0
      (some (if negative then -n else n), r)
  | rest => some (none, rest)

/-- A number at the front of a text, its sign already read. -/
def scanNumber? (negative : Bool) (text : List Glyph) : Option (Numeral × List Glyph) := do
  let (front, rest) ← scanWhole? text
  let (fraction, rest) ← scanFraction? rest
  let (exponent, rest) ← scanExponent? rest
  pure ({ negative
          digits := Nat.ofDigitChars 10 (front ++ fraction) 0
          scale := exponent.getD 0 - fraction.length
          plain := fraction.isEmpty && exponent.isNone }, rest)

/-! ## The whole text -/

/-- The white space that may stand between tokens. -/
def isSpace (c : Char) : Bool := c = ' ' || c = '\n' || c = '\t' || c = '\r'

/-- The token at the front of a text that does not start with white space, and the text after
it. -/
def scanToken? (fuel : Nat) (c : Char) (rest : List Glyph) : Option (Token × List Glyph) :=
  match c, rest with
  | '[', rest => some (.openArray, rest)
  | ']', rest => some (.closeArray, rest)
  | '\x7b', rest => some (.openObject, rest)
  | '\x7d', rest => some (.closeObject, rest)
  | ',', rest => some (.comma, rest)
  | ':', rest => some (.colon, rest)
  | 'n', some 'u' :: some 'l' :: some 'l' :: rest => some (.null, rest)
  | 't', some 'r' :: some 'u' :: some 'e' :: rest => some (.bool true, rest)
  | 'f', some 'a' :: some 'l' :: some 's' :: some 'e' :: rest => some (.bool false, rest)
  | '"', rest =>
    (scanString fuel rest).map fun (ps, r) => (.string ((spell ps).map String.ofList), r)
  | '-', rest => (scanNumber? true rest).map fun (n, r) => (.number n, r)
  | c, rest =>
    if c.isDigit then (scanNumber? false (some c :: rest)).map fun (n, r) => (.number n, r)
    else none

/-- The tokens of a text, at most `fuel` glyphs of white space and tokens. -/
def tokensWithin : Nat → List Glyph → List Token
  | 0, _ => []
  | _, [] => []
  | _ + 1, none :: _ => [.stray]
  | fuel + 1, some c :: rest =>
    if isSpace c then tokensWithin fuel rest
    else match scanToken? fuel c rest with
      | some (t, rest) => t :: tokensWithin fuel rest
      | none => [.stray]

/-- The tokens of a text. -/
def tokens (text : List Glyph) : List Token := tokensWithin text.length text

end Marginalia.Json
