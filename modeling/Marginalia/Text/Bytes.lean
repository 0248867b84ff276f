/-!
# Text — characters and their bytes

A text is kept as bytes, from one to four for a character, while all that points into it counts
characters. `byteOffset` says at which byte a character starts. `replaceBytes` puts something in the
place of a stretch of bytes, and asks for a proof that they can be cut out (`Cut`): the ends are in
order and inside the text, and neither of them parts the bytes of a character.
-/

namespace Marginalia.Text

/-- The characters of a text, each with the byte that it starts at; the first starts at `byte`. -/
def indexed (byte : Nat) : List Char → List (Nat × Char)
  | [] => []
  | c :: text => (byte, c) :: indexed (byte + c.utf8Size) text

/-- The byte that the character at an offset starts at. Behind the last one the text ends. -/
def byteOffset (text : String) (offset : Nat) : Nat :=
  match (indexed 0 text.toList)[offset]? with
  | some (byte, _) => byte
  | none => text.utf8ByteSize

/-- The byte stands in front of a character or at the end of the text. -/
def Boundary (text : String) (byte : Nat) : Prop := (String.Pos.Raw.mk byte).IsValid text

/-- The bytes from `start` to `stop` can be cut out of the text. -/
structure Cut (text : String) (start stop : Nat) : Prop where
  ordered : start ≤ stop
  inside : stop ≤ text.utf8ByteSize
  opens : Boundary text start
  closes : Boundary text stop

/-- The text with something else in the place of bytes that can be cut out. -/
def replaceBytes (text : String) (start stop : Nat) (replacement : String)
    (h : Cut text start stop) : String :=
  (text.sliceTo ⟨⟨start⟩, h.opens⟩).copy ++ replacement ++ (text.sliceFrom ⟨⟨stop⟩, h.closes⟩).copy

/-! ## Where characters start -/

theorem getElem?_indexed (byte : Nat) (text : List Char) (i : Nat) :
    (indexed byte text)[i]? =
      text[i]?.map fun c => (byte + (String.ofList (text.take i)).utf8ByteSize, c) := by
  induction text generalizing byte i with
  | nil => rfl
  | cons c text ih =>
    cases i with
    | zero => simp [indexed]
    | succ i =>
      have hsize : (String.ofList ((c :: text).take (i + 1))).utf8ByteSize =
          c.utf8Size + (String.ofList (text.take i)).utf8ByteSize := by
        rw [List.take_succ_cons, ← List.singleton_append, String.ofList_append,
          String.utf8ByteSize_append, ← String.singleton_eq_ofList, String.utf8ByteSize_singleton]
      simp only [indexed, List.getElem?_cons_succ, ih, hsize, Nat.add_assoc]

/-- A character starts where those before it end. -/
theorem byteOffset_eq (text : String) (offset : Nat) :
    byteOffset text offset = (String.ofList (text.toList.take offset)).utf8ByteSize := by
  unfold byteOffset
  rw [getElem?_indexed]
  cases h : text.toList[offset]? with
  | some c => simp
  | none =>
    have hend : text.toList.take offset = text.toList :=
      List.take_of_length_le (List.getElem?_eq_none_iff.mp h)
    simp [hend]

/-- So it starts at no later byte than one that comes after it. -/
theorem byteOffset_le (text : String) {i j : Nat} (h : i ≤ j) :
    byteOffset text i ≤ byteOffset text j := by
  have hsplit := List.take_append_drop i (text.toList.take j)
  rw [List.take_take, Nat.min_eq_left h] at hsplit
  rw [byteOffset_eq, byteOffset_eq, ← hsplit, String.ofList_append, String.utf8ByteSize_append]
  exact Nat.le_add_right _ _

/-- It stands on a boundary. -/
theorem boundary_byteOffset (text : String) (offset : Nat) :
    Boundary text (byteOffset text offset) :=
  String.Pos.Raw.isValid_iff_exists_take_toList.mpr ⟨offset, byteOffset_eq text offset⟩

/-- What lies between two characters can be cut out. -/
theorem cut_byteOffset (text : String) {start stop : Nat} (h : start ≤ stop) :
    Cut text (byteOffset text start) (byteOffset text stop) where
  ordered := byteOffset_le text h
  inside := (boundary_byteOffset text stop).le_utf8ByteSize
  opens := boundary_byteOffset text start
  closes := boundary_byteOffset text stop

/-! ## What replacing comes to -/

/-- A boundary parts the characters before an offset from those after it. -/
theorem splits_byteOffset (text : String) (offset : Nat) :
    (String.Pos.mk _ (boundary_byteOffset text offset)).Splits
      (String.ofList (text.toList.take offset)) (String.ofList (text.toList.drop offset)) where
  eq_append := by
    rw [← String.ofList_append, List.take_append_drop, String.ofList_toList]
  offset_eq_rawEndPos := String.Pos.Raw.ext (byteOffset_eq text offset)

/-- **To replace the bytes between two characters** is to replace the characters between them. -/
theorem replaceBytes_byteOffset (text : String) {start stop : Nat}
    (h : Cut text (byteOffset text start) (byteOffset text stop)) (replacement : String) :
    replaceBytes text _ _ replacement h =
      String.ofList (text.toList.take start ++ replacement.toList ++ text.toList.drop stop) := by
  unfold replaceBytes
  rw [(splits_byteOffset text start).copy_sliceTo_eq, (splits_byteOffset text stop).copy_sliceFrom_eq,
    String.ofList_append, String.ofList_append, String.ofList_toList]

end Marginalia.Text
