import Marginalia.Text.Utf8

/-!
# Text — the bytes of a text

The bytes of a text are read as its characters and nothing else
(`Text.glyphs_toUTF8`).
-/

namespace Marginalia.Text

/-- Every character takes at least one byte. -/
theorem length_le_size_utf8Encode (cs : List Char) : cs.length ≤ cs.utf8Encode.size := by
  induction cs with
  | nil => exact Nat.zero_le _
  | cons c cs ih =>
    have hpos := c.utf8Size_pos
    rw [List.utf8Encode_cons, ByteArray.size_append, List.utf8Encode_singleton,
      List.size_toByteArray, String.length_utf8EncodeChar, List.length_cons]
    omega

/-- Characters are read off wherever they stand. -/
theorem glyphsFrom_append (front : ByteArray) {cs : List Char} {fuel : Nat}
    (hfuel : cs.length ≤ fuel) :
    glyphsFrom (front ++ cs.utf8Encode) fuel front.size = cs.map some := by
  induction cs generalizing front fuel with
  | nil =>
    cases fuel with
    | zero => rfl
    | succ fuel => simp [glyphsFrom]
  | cons c cs ih =>
    obtain ⟨fuel, rfl⟩ : ∃ n, fuel = n + 1 := ⟨fuel - 1, by simp at hfuel; omega⟩
    have hsize : front.size < (front ++ (c :: cs).utf8Encode).size := by
      have := length_le_size_utf8Encode (c :: cs)
      rw [List.length_cons] at this
      rw [ByteArray.size_append]
      omega
    have hchar : (front ++ (c :: cs).utf8Encode).utf8DecodeChar? front.size = some c := by
      rw [ByteArray.utf8DecodeChar?_eq_utf8DecodeChar?_extract,
        ByteArray.extract_append_eq_right rfl ByteArray.size_append,
        List.utf8DecodeChar?_utf8Encode_cons]
    have hrest : glyphsFrom (front ++ (c :: cs).utf8Encode) fuel (front.size + c.utf8Size) =
        cs.map some := by
      rw [List.utf8Encode_cons, ← ByteArray.append_assoc]
      have hnext : front.size + c.utf8Size = (front ++ [c].utf8Encode).size := by
        rw [ByteArray.size_append, List.utf8Encode_singleton, List.size_toByteArray,
          String.length_utf8EncodeChar]
      rw [hnext]
      exact ih _ (by simpa using hfuel)
    rw [glyphsFrom, if_neg (Nat.not_le.mpr hsize), hchar, List.map_cons, ← hrest]

/-- **The bytes of a text are read as the text.** -/
theorem glyphs_toUTF8 (text : String) : glyphs text.toUTF8 = glyphsOfText text := by
  have hread := glyphsFrom_append ByteArray.empty (length_le_size_utf8Encode text.toList)
  rw [ByteArray.empty_append, String.utf8Encode_toList] at hread
  exact hread

end Marginalia.Text
