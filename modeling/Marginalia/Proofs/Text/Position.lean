import Marginalia.Number.Word
import Marginalia.Proofs.Text.Tiling
import Mathlib.Data.List.DropRight

/-!
# Text — lines and columns

An offset is on the last line that starts at or before it
(`Lines.Upto`), and there is one for every offset, behind the end of the
text too (`Lines.upto_position`). Of the characters before the offset, the
newlines are its line and those after the last newline its column
(`Lines.position_append`).

Starts are looked up one after the other. To search them in any way that
is sound comes to the same, and then a start is found for every offset
and is not after it (`Lines.positionBy?_eq`).
-/

namespace Marginalia

namespace Lines

variable {text finished current after : List Char} {l : Lines} {xs : List Nat}
variable {offset start start' i j : Nat}

/-! ## The last start -/

/-- **The last of the starts** that is at or before an offset. -/
structure Upto (xs : List Nat) (offset i start : Nat) : Prop where
  starts : xs[i]? = some start
  le : start ≤ offset
  last : ∀ j start', xs[j]? = some start' → start' ≤ offset → j ≤ i

theorem Upto.unique (h : Upto xs offset i start) (h' : Upto xs offset j start') :
    i = j ∧ start = start' := by
  obtain rfl : i = j :=
    Nat.le_antisymm (h'.last i start h.starts h.le) (h.last j start' h'.starts h'.le)
  have hsame := h.starts
  rw [h'.starts] at hsame
  exact ⟨rfl, (Option.some.inj hsame).symm⟩

/-- The walk over the starts ends at the last one. -/
theorem exists_upto_of_locate {done rest : List Nat}
    (hordered : (done ++ start :: rest).Pairwise (· < ·)) (hle : start ≤ offset) :
    ∃ i last, locate offset done.length start rest = (i, offset - last) ∧
      Upto (done ++ start :: rest) offset i last := by
  induction rest generalizing done start with
  | nil =>
    refine ⟨done.length, start, rfl, by simp, hle, ?_⟩
    intro j start' hj _
    have hlt := (List.getElem?_eq_some_iff.mp hj).1
    rw [List.length_append, List.length_singleton] at hlt
    omega
  | cons next rest ih =>
    rw [locate]
    split
    · rename_i hnext
      have hsplit : done ++ start :: next :: rest = (done ++ [start]) ++ next :: rest := by simp
      have hlength : done.length + 1 = (done ++ [start]).length := by simp
      rw [hsplit] at hordered ⊢
      rw [hlength]
      exact ih hordered hnext
    · rename_i hnext
      have hstart : (done ++ start :: next :: rest)[done.length]? = some start := by simp
      have hsucc : (done ++ start :: next :: rest)[done.length + 1]? = some next := by simp
      refine ⟨done.length, start, rfl, hstart, hle, ?_⟩
      intro j start' hj hle'
      have hbefore := (lt_iff_of_ascending hordered hj hsucc).mp (by omega)
      omega

/-- **Every offset has a line.** -/
theorem upto_position (text : List Char) (offset : Nat) :
    ∃ start, Upto (ofChars text).starts offset ((ofChars text).position offset).1 start ∧
      ((ofChars text).position offset).2 = offset - start := by
  have hordered : ([] ++ 0 :: (ofChars text).later).Pairwise (· < ·) := pairwise_starts text
  obtain ⟨i, start, hlocate, hupto⟩ := exists_upto_of_locate hordered (Nat.zero_le offset)
  have hposition : (ofChars text).position offset = (i, offset - start) := hlocate
  rw [hposition]
  exact ⟨start, hupto, rfl⟩

/-! ## Newlines before an offset -/

theorem startsAfter_append (offset : Nat) (text after : List Char) :
    startsAfter offset (text ++ after) =
      startsAfter offset text ++ startsAfter (offset + text.length) after := by
  induction text generalizing offset with
  | nil => rfl
  | cons c text ih =>
    have hlength : offset + 1 + text.length = offset + (c :: text).length := by
      rw [List.length_cons]
      omega
    rw [List.cons_append, startsAfter, startsAfter, ih, hlength]
    split <;> rfl

theorem startsAfter_of_notMem (h : '\n' ∉ text) (offset : Nat) : startsAfter offset text = [] :=
  List.eq_nil_iff_length_eq_zero.mpr
    ((length_startsAfter offset text).trans (List.count_eq_zero.mpr h))

/-- What is finished by a newline, or nothing, is followed by a start. -/
theorem starts_of_finished (h : finished = [] ∨ ∃ lines, finished = lines ++ ['\n']) :
    (0 :: startsAfter 0 finished)[finished.count '\n']? = some finished.length := by
  rcases h with rfl | ⟨lines, rfl⟩
  · rfl
  · have hcount := length_startsAfter 0 lines
    rw [startsAfter_append, List.count_append]
    simp [startsAfter, hcount]

/-- **The line of an offset is the number of newlines before it**, and its
column that of the characters after the last of them. -/
theorem position_append (hfinished : finished = [] ∨ ∃ lines, finished = lines ++ ['\n'])
    (hcurrent : '\n' ∉ current) (after : List Char) :
    (ofChars (finished ++ current ++ after)).position (finished ++ current).length =
      (finished.count '\n', current.length) := by
  obtain ⟨start, hupto, hcolumn⟩ :=
    upto_position (finished ++ current ++ after) (finished ++ current).length
  have hstarts : (ofChars (finished ++ current ++ after)).starts =
      (0 :: startsAfter 0 finished) ++ startsAfter (finished ++ current).length after := by
    rw [starts, ofChars, startsAfter_append, startsAfter_append, startsAfter_of_notMem hcurrent,
      List.append_nil, Nat.zero_add, List.cons_append]
  have hlines : (0 :: startsAfter 0 finished).length = finished.count '\n' + 1 :=
    congrArg Nat.succ (length_startsAfter 0 finished)
  have hlast : Upto (ofChars (finished ++ current ++ after)).starts (finished ++ current).length
      (finished.count '\n') finished.length := by
    rw [hstarts]
    refine ⟨?_, by simp, ?_⟩
    · rw [List.getElem?_append_left (by omega)]
      exact starts_of_finished hfinished
    · intro j start' hj hle
      by_contra hgt
      -- what starts after this line starts after the offset
      rw [List.getElem?_append_right (by omega)] at hj
      have := (bounds_of_mem_startsAfter (List.mem_of_getElem? hj)).1
      omega
  obtain ⟨hline, rfl⟩ := hupto.unique hlast
  rw [List.length_append, Nat.add_sub_cancel_left] at hcolumn
  exact Prod.ext hline (by rw [← hcolumn, List.length_append])

/-- So it is for every offset that is not behind the end. -/
theorem position_eq (h : offset ≤ text.length) :
    (ofChars text).position offset = ((text.take offset).count '\n',
      ((text.take offset).rtakeWhile (· ≠ '\n')).length) := by
  obtain ⟨finished, hfinished⟩ : ∃ fs, fs = (text.take offset).rdropWhile (· ≠ '\n') := ⟨_, rfl⟩
  obtain ⟨current, hcurrent⟩ : ∃ cs, cs = (text.take offset).rtakeWhile (· ≠ '\n') := ⟨_, rfl⟩
  have hbefore : text.take offset = finished ++ current := by
    rw [hfinished, hcurrent, List.rdropWhile_append_rtakeWhile]
  have htext : text = finished ++ current ++ text.drop offset := by
    rw [← hbefore, List.take_append_drop]
  have hoffset : offset = (finished ++ current).length := by
    rw [← hbefore, List.length_take, Nat.min_eq_left h]
  have hnone : '\n' ∉ current := by
    intro hmem
    rw [hcurrent] at hmem
    simpa using List.mem_rtakeWhile_imp hmem
  have hend : finished = [] ∨ ∃ lines, finished = lines ++ ['\n'] := by
    have hlast (hne : finished ≠ []) : finished.getLast hne = '\n' := by
      subst hfinished
      simpa using List.rdropWhile_last_not _ _ hne
    rcases List.eq_nil_or_concat' finished with hnil | ⟨lines, c, rfl⟩
    · exact .inl hnil
    · have hc := hlast (by simp)
      rw [List.getLast_append_singleton] at hc
      exact .inr ⟨lines, by rw [hc]⟩
  have hposition := position_append hend hnone (text.drop offset)
  rw [← htext, ← hoffset] at hposition
  rw [hposition, ← hcurrent, hbefore, List.count_append, List.count_eq_zero.mpr hnone]
  rfl

/-- **No two offsets share line and column.** -/
theorem position_injective (text : List Char) : Function.Injective (ofChars text).position := by
  intro offset offset' h
  obtain ⟨start, hupto, hcolumn⟩ := upto_position text offset
  obtain ⟨start', hupto', hcolumn'⟩ := upto_position text offset'
  have hstart := hupto.starts
  rw [h, hupto'.starts] at hstart
  cases hstart
  have hle := hupto.le
  have hle' := hupto'.le
  rw [h, hcolumn'] at hcolumn
  omega

/-! ## Starts that are searched -/

/-- `position` with a search for the start of the line, where a start that
is not there and a column below zero are noticed. -/
def positionBy? (search : Search) (l : Lines) (offset : Nat) : Option (Nat × Nat) :=
  let line := match search l.starts offset with
    | .ok line => line
    | .error next => next - 1
  l.starts[line]?.bind fun start => (Word.sub? offset start).map fun column => (line, column)

/-- A sound search finds the last start, or the place behind it. -/
theorem exists_upto_of_search {search : Search} (h : search.Sound)
    (hordered : xs.Pairwise (· < ·)) (hfirst : xs[0]? = some 0) (offset : Nat) :
    ∃ start, Upto xs offset
      (match search xs offset with
        | .ok line => line
        | .error next => next - 1) start := by
  cases hsearch : search xs offset with
  | ok line =>
    have hfound := h.found xs offset line hsearch
    refine ⟨offset, hfound, Nat.le_refl _, ?_⟩
    intro j start hj hle
    have := mt (lt_iff_of_ascending hordered hfound hj).mpr (by omega)
    exact Nat.le_of_not_lt this
  | error next =>
    obtain ⟨hnext, hsplit⟩ := h.missing xs offset next hordered hsearch
    -- the first start is before the offset, so the place is behind a start
    have hpos : 0 < next := by
      obtain ⟨hne, hiff⟩ := hsplit 0 0 hfirst
      exact hiff.mp (by omega)
    have hstart := List.getElem?_eq_getElem (l := xs) (i := next - 1) (by omega)
    have hlt := (hsplit _ _ hstart).2.mpr (by omega)
    refine ⟨_, hstart, Nat.le_of_lt hlt, ?_⟩
    intro j start hj hle
    obtain ⟨hne, hiff⟩ := hsplit j start hj
    have := hiff.mp (by omega)
    show j ≤ next - 1
    omega

/-- **A search is never out of the table and takes no start after the
offset**, and it tells what the walk tells. -/
theorem positionBy?_eq {search : Search} (h : search.Sound) (text : List Char) (offset : Nat) :
    positionBy? search (ofChars text) offset = some ((ofChars text).position offset) := by
  obtain ⟨start, hupto, hcolumn⟩ := upto_position text offset
  obtain ⟨start', hsearch⟩ := exists_upto_of_search h (pairwise_starts text) rfl offset
  obtain ⟨hline, rfl⟩ := hupto.unique hsearch
  unfold positionBy?
  dsimp only
  rw [hsearch.starts, Option.bind_some, Word.sub?, if_pos hsearch.le, Option.map_some, ← hline,
    ← hcolumn]

/-! ## Together -/

/-- **Lines that an offset is placed by.** -/
structure Places (text : List Char) (l : Lines) : Prop where
  /-- The line of an offset is the last that starts at or before it, and
  the column is counted from there, whether or not the text goes so far. -/
  line : ∀ offset, ∃ span, l.span? (l.position offset).1 = some span ∧ span.start ≤ offset ∧
    (l.position offset).2 = offset - span.start ∧
    ∀ i span', l.span? i = some span' → span'.start ≤ offset → i ≤ (l.position offset).1
  /-- Within the text it is the newlines before the offset that are
  counted, and the characters after the last of them. -/
  counted : ∀ offset, offset ≤ text.length →
    l.position offset = ((text.take offset).count '\n',
      ((text.take offset).rtakeWhile (· ≠ '\n')).length)
  injective : Function.Injective l.position
  /-- To search for the line finds it, in any way that is sound. -/
  searched : ∀ search : Search, search.Sound → ∀ offset,
    positionBy? search l offset = some (l.position offset)

theorem places (text : List Char) : Places text (ofChars text) where
  line offset := by
    obtain ⟨start, hupto, hcolumn⟩ := upto_position text offset
    obtain ⟨span, hspan⟩ : ∃ span, (ofChars text).span? ((ofChars text).position offset).1 =
        some span := by
      rw [span?, hupto.starts]
      exact ⟨_, rfl⟩
    have hstart := (span?_eq_some_iff.mp hspan).1
    rw [hupto.starts] at hstart
    cases hstart
    refine ⟨span, hspan, hupto.le, hcolumn, ?_⟩
    intro i span' hspan' hle
    exact hupto.last i span'.start (span?_eq_some_iff.mp hspan').1 hle
  counted _ h := position_eq h
  injective := position_injective text
  searched _ h offset := positionBy?_eq h text offset

/-- **Lines tile every text, and line and column tell every offset**, also
where the lines are searched by halving. -/
theorem tiles_and_places (text : String) :
    Tiles text.toList (ofText text) ∧ Places text.toList (ofText text) ∧ Search.halving.Sound :=
  ⟨tiles text.toList, places text.toList, Search.sound_halving⟩

/-- An empty line in the middle, one at the end, and an offset behind
it. -/
example :
    let l := ofText "é\n\nx\n"
    (List.range 5).map l.span? =
        [some ⟨0, 2⟩, some ⟨2, 3⟩, some ⟨3, 5⟩, some ⟨5, 5⟩, none] ∧
      [0, 1, 2, 3, 4, 5, 9].map (positionBy? Search.halving l) =
        [some (0, 0), some (0, 1), some (1, 0), some (2, 0), some (2, 1), some (3, 0),
          some (3, 4)] := by
  decide +kernel

end Lines

end Marginalia
