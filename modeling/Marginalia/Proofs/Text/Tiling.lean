import Marginalia.Proofs.Text.Lines
import Marginalia.Proofs.Text.Search

/-!
# Text — lines tile their text

Lines start at the beginning of the text and right behind every newline,
and nowhere else (`Lines.mem_starts_iff`). So no newline but the last
character stands between the start of a line and that of the next one
(`Lines.no_newline`), and each line takes up where the one before ends
(`Lines.tiles`).
-/

namespace Marginalia

namespace Lines

variable {text : List Char} {l : Lines} {span span' : Span}
variable {offset start start' i j k : Nat}

/-! ## Starts and newlines -/

theorem mem_startsAfter_iff :
    start ∈ startsAfter offset text ↔ ∃ k, text[k]? = some '\n' ∧ start = offset + k + 1 := by
  induction text generalizing offset with
  | nil => simp [startsAfter]
  | cons c text ih =>
    -- the newline is the first character, or one of those after it
    have hlater : start ∈ startsAfter (offset + 1) text ↔
        ∃ k, (c :: text)[k + 1]? = some '\n' ∧ start = offset + (k + 1) + 1 := by
      rw [ih]
      refine exists_congr fun k => and_congr_right fun _ => ?_
      omega
    rw [← Nat.or_exists_add_one, ← hlater, startsAfter]
    split
    · rename_i hc
      subst hc
      simp
    · rename_i hc
      simp [hc]

theorem mem_starts_iff :
    start ∈ (ofChars text).starts ↔
      start = 0 ∨ ∃ k, text[k]? = some '\n' ∧ start = k + 1 := by
  refine List.mem_cons.trans (or_congr_right (mem_startsAfter_iff.trans ?_))
  simp only [Nat.zero_add]

theorem length_startsAfter (offset : Nat) (text : List Char) :
    (startsAfter offset text).length = text.count '\n' := by
  induction text generalizing offset with
  | nil => rfl
  | cons c text ih =>
    rw [startsAfter, List.count_cons]
    split
    · rename_i hc
      rw [List.length_cons, ih, if_pos (by simpa using hc)]
    · rename_i hc
      rw [ih, if_neg (by simpa using hc), Nat.add_zero]

/-- **A line for every newline, and one more.** -/
theorem count_ofChars (text : List Char) : (ofChars text).count = text.count '\n' + 1 :=
  congrArg Nat.succ (length_startsAfter 0 text)

/-- Lines are in the order of their starts. -/
theorem lt_iff_of_starts (hi : (ofChars text).starts[i]? = some start)
    (hj : (ofChars text).starts[j]? = some start') : start < start' ↔ i < j :=
  lt_iff_of_ascending (pairwise_starts text) hi hj

/-- No line starts behind the end. -/
theorem le_length_of_mem_starts (h : start ∈ (ofChars text).starts) : start ≤ text.length := by
  rcases mem_starts_iff.mp h with rfl | ⟨k, hk, rfl⟩
  · exact Nat.zero_le _
  · exact (List.getElem?_eq_some_iff.mp hk).1

/-- The next line starts no later than any that starts later. -/
theorem exists_next_start (hi : (ofChars text).starts[i]? = some start)
    (hmem : start' ∈ (ofChars text).starts) (hlt : start < start') :
    ∃ next, (ofChars text).starts[i + 1]? = some next ∧ next ≤ start' := by
  obtain ⟨j, hj⟩ := List.mem_iff_getElem?.mp hmem
  have hij := (lt_iff_of_starts hi hj).mp hlt
  obtain ⟨hjlt, -⟩ := List.getElem?_eq_some_iff.mp hj
  have hnext := List.getElem?_eq_getElem (l := (ofChars text).starts) (i := i + 1) (by omega)
  refine ⟨_, hnext, ?_⟩
  have hle := mt (lt_iff_of_starts hj hnext).mp (by omega)
  omega

/-! ## Spans of lines -/

theorem span?_eq_some_iff :
    l.span? i = some span ↔
      l.starts[i]? = some span.start ∧ span.stop = (l.starts[i + 1]?).getD l.length := by
  obtain ⟨start, stop⟩ := span
  rw [span?, Option.map_eq_some_iff]
  constructor
  · rintro ⟨_, hstart, hspan⟩
    cases hspan
    exact ⟨hstart, rfl⟩
  · rintro ⟨hstart, rfl⟩
    exact ⟨start, hstart, rfl⟩

theorem span?_eq_none_iff : l.span? i = none ↔ l.count ≤ i := by
  rw [span?, Option.map_eq_none_iff]
  exact List.getElem?_eq_none_iff

/-- A line that is not the last stops where the next one starts. -/
theorem start_of_next (h : l.span? i = some span) (hnext : i + 1 < l.count) :
    l.starts[i + 1]? = some span.stop := by
  have hstarts := List.getElem?_eq_getElem hnext
  rw [(span?_eq_some_iff.mp h).2, hstarts]
  rfl

/-- **A newline is the last character of its line**, and so there is none
in the last line. -/
theorem no_newline (h : (ofChars text).span? i = some span) (hk : span.start ≤ k)
    (hstop : i + 1 < (ofChars text).count → k + 1 < span.stop) : text[k]? ≠ some '\n' := by
  intro hnewline
  -- a line starts behind the newline, and the next one no later
  have hmem : k + 1 ∈ (ofChars text).starts := mem_starts_iff.mpr (.inr ⟨k, hnewline, rfl⟩)
  obtain ⟨next, hnext, hle⟩ :=
    exists_next_start (span?_eq_some_iff.mp h).1 hmem (by omega)
  have hlt : i + 1 < (ofChars text).count := (List.getElem?_eq_some_iff.mp hnext).1
  rw [start_of_next h hlt] at hnext
  cases hnext
  have := hstop hlt
  omega

/-- A newline ends every line but the last. -/
theorem newline_of_next (h : (ofChars text).span? i = some span)
    (hnext : i + 1 < (ofChars text).count) :
    ∃ k, span.start ≤ k ∧ span.stop = k + 1 ∧ text[k]? = some '\n' := by
  have hstop := start_of_next h hnext
  have hlt := (lt_iff_of_starts (span?_eq_some_iff.mp h).1 hstop).mpr (Nat.lt_succ_self i)
  rcases mem_starts_iff.mp (List.mem_of_getElem? hstop) with hzero | ⟨k, hnewline, hk⟩
  · omega
  · exact ⟨k, by omega, hk, hnewline⟩

theorem stop_of_last (h : l.span? i = some span) (hlast : i + 1 = l.count) :
    span.stop = l.length := by
  have hnone : l.starts[i + 1]? = none := List.getElem?_eq_none_iff.mpr (Nat.le_of_eq hlast.symm)
  rw [(span?_eq_some_iff.mp h).2, hnone]
  rfl

/-- A line has a place in the text. -/
theorem fits_of_span? (h : (ofChars text).span? i = some span) :
    span.start ≤ span.stop ∧ span.stop ≤ text.length := by
  have hstart := (span?_eq_some_iff.mp h).1
  have hle := le_length_of_mem_starts (List.mem_of_getElem? hstart)
  rcases Nat.lt_or_ge (i + 1) (ofChars text).count with hnext | hlast
  · have hstop := start_of_next h hnext
    have hlt := (lt_iff_of_starts hstart hstop).mpr (Nat.lt_succ_self i)
    exact ⟨by omega, le_length_of_mem_starts (List.mem_of_getElem? hstop)⟩
  · have hlt : i < (ofChars text).count := (List.getElem?_eq_some_iff.mp hstart).1
    have hstop : span.stop = text.length := stop_of_last h (by omega)
    exact ⟨by omega, by omega⟩

/-! ## The characters of a line -/

theorem exists_of_mem_extract {c : Char} (h : c ∈ text.extract i j) :
    ∃ k, i ≤ k ∧ k < j ∧ text[k]? = some c := by
  obtain ⟨n, hn⟩ := List.mem_iff_getElem?.mp h
  rw [List.extract_eq_take_drop, List.getElem?_take] at hn
  split at hn
  · rw [List.getElem?_drop] at hn
    exact ⟨i + n, by omega, by omega, hn⟩
  · cases hn

theorem extract_succ {c : Char} (hi : i ≤ k) (hk : text[k]? = some c) :
    text.extract i (k + 1) = text.extract i k ++ [c] := by
  have hlength : k + 1 - i = k - i + 1 := by omega
  have hindex : i + (k - i) = k := by omega
  rw [List.extract_eq_take_drop, List.extract_eq_take_drop, hlength, List.take_add_one,
    List.getElem?_drop, hindex, hk]
  rfl

/-! ## Together -/

/-- **Lines that tile a text.** -/
structure Tiles (text : List Char) (l : Lines) : Prop where
  count : l.count = text.count '\n' + 1
  length : l.length = text.length
  span?_eq_none_iff : ∀ i, l.span? i = none ↔ l.count ≤ i
  /-- The first line starts at the beginning, -/
  first : ∃ stop, l.span? 0 = some ⟨0, stop⟩
  /-- each takes up where the one before ends, -/
  next : ∀ i span span', l.span? i = some span → l.span? (i + 1) = some span' →
    span'.start = span.stop
  /-- and the last ends at the end. -/
  last : ∀ i span, l.span? i = some span → i + 1 = l.count → span.stop = text.length
  fits : ∀ i span, l.span? i = some span → span.start ≤ span.stop ∧ span.stop ≤ text.length
  /-- A line ends with a newline, which is the only one in it; -/
  ended : ∀ i span, l.span? i = some span → i + 1 < l.count →
    ∃ line, '\n' ∉ line ∧ text.extract span.start span.stop = line ++ ['\n']
  /-- the last has none. -/
  unended : ∀ i span, l.span? i = some span → i + 1 = l.count →
    '\n' ∉ text.extract span.start span.stop

theorem tiles (text : List Char) : Tiles text (ofChars text) where
  count := count_ofChars text
  length := rfl
  span?_eq_none_iff _ := span?_eq_none_iff
  first := ⟨_, rfl⟩
  next i span span' h h' := by
    have hlt : i + 1 < (ofChars text).count :=
      (List.getElem?_eq_some_iff.mp (span?_eq_some_iff.mp h').1).1
    have hstart := (span?_eq_some_iff.mp h').1
    rw [start_of_next h hlt] at hstart
    exact (Option.some.inj hstart).symm
  last i span h hlast := stop_of_last h hlast
  fits i span h := fits_of_span? h
  ended i span h hnext := by
    obtain ⟨k, hk, hstop, hnewline⟩ := newline_of_next h hnext
    refine ⟨text.extract span.start k, ?_, ?_⟩
    · intro hmem
      obtain ⟨n, hn, hlt, hother⟩ := exists_of_mem_extract hmem
      exact no_newline h hn (by omega) hother
    · rw [hstop, extract_succ hk hnewline]
  unended i span h hlast := by
    intro hmem
    obtain ⟨n, hn, -, hother⟩ := exists_of_mem_extract hmem
    exact no_newline h hn (by omega) hother

end Lines

end Marginalia
