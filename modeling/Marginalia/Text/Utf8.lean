/-!
# Text — characters and stray bytes

What is read from outside may hold bytes that are no character. A `Glyph` is a character or one
such byte; `glyphs` reads bytes as the longest run of characters from each place on, and steps over
a byte where none starts.
-/

namespace Marginalia.Text

/-- A character, or nothing for a byte that belongs to no character. -/
abbrev Glyph := Option Char

/-- The glyphs from position `i` on, at most `fuel` of them. -/
def glyphsFrom (bytes : ByteArray) : Nat → Nat → List Glyph
  | 0, _ => []
  | fuel + 1, i =>
    if bytes.size ≤ i then []
    else match bytes.utf8DecodeChar? i with
      | some c => some c :: glyphsFrom bytes fuel (i + c.utf8Size)
      | none => none :: glyphsFrom bytes fuel (i + 1)

/-- The glyphs of a sequence of bytes. -/
def glyphs (bytes : ByteArray) : List Glyph := glyphsFrom bytes bytes.size 0

/-- The glyphs of a text. -/
def glyphsOfText (text : String) : List Glyph := text.toList.map some

end Marginalia.Text
