import Marginalia.Text.Lines
import Mathlib.Data.List.Basic

/-!
# Text — lines and their spans

Every newline ends one line and opens the next, so each line starts
later than the ones before (`Lines.pairwise_starts`). A span therefore
tells its line, also where the line is empty (`Lines.span?_inj`), and it
is the same to leave repeated lines out as to leave their spans out
(`Lines.eraseDups_filterMap_span?`).
-/

namespace Marginalia

/-- Where no two entries become the same, repetitions may be left out
before or after. -/
theorem eraseDups_filterMap {α β : Type} [BEq α] [LawfulBEq α] [BEq β] [LawfulBEq β]
    {f : α → Option β} (hf : ∀ a a' b, f a = some b → f a' = some b → a = a') :
    ∀ xs : List α, (xs.filterMap f).eraseDups = xs.eraseDups.filterMap f
  | [] => rfl
  | x :: xs => by
    have hshorter : (xs.filter fun a => !a == x).length < xs.length + 1 :=
      Nat.lt_succ_of_le (List.length_filter_le _ _)
    have hrest := eraseDups_filterMap hf (xs.filter fun a => !a == x)
    rw [List.eraseDups_cons, List.filterMap_cons, List.filterMap_cons, ← hrest,
      List.filterMap_filter]
    cases hx : f x with
    | none =>
      -- the repetitions of an entry become nothing, as the entry does
      refine congrArg List.eraseDups (List.filterMap_congr fun a _ => ?_)
      by_cases ha : a = x
      · simp [ha, hx]
      · simp [ha]
    | some b =>
      rw [List.eraseDups_cons, List.filter_filterMap]
      refine congrArg (b :: ·.eraseDups) (List.filterMap_congr fun a _ => ?_)
      by_cases ha : a = x
      · simp [ha, hx]
      · have hne : f a ≠ some b := fun hb => ha (hf a x b hb hx)
        cases hfa : f a with
        | none => simp
        | some c =>
          have hc : c ≠ b := fun hsame => hne (by rw [hfa, hsame])
          simp [ha, hc]
termination_by xs => xs.length

namespace Lines

variable {text : List Char} {l : Lines} {offset start i j : Nat} {span : Span}

/-! ## Where lines start -/

/-- A line starts after the newline before it, and not after the end. -/
theorem bounds_of_mem_startsAfter (h : start ∈ startsAfter offset text) :
    offset < start ∧ start ≤ offset + text.length := by
  induction text generalizing offset with
  | nil => cases h
  | cons c text ih =>
    rw [List.length_cons]
    rw [startsAfter] at h
    split at h
    · rcases List.mem_cons.mp h with rfl | h
      · omega
      · have hrest := ih h
        omega
    · have hrest := ih h
      omega

theorem pairwise_startsAfter (offset : Nat) (text : List Char) :
    (startsAfter offset text).Pairwise (· < ·) := by
  induction text generalizing offset with
  | nil => exact .nil
  | cons c text ih =>
    rw [startsAfter]
    split
    · exact .cons (fun _ h => (bounds_of_mem_startsAfter h).1) (ih (offset + 1))
    · exact ih (offset + 1)

/-- **Each line starts later** than the ones before. -/
theorem pairwise_starts (text : List Char) : (ofChars text).starts.Pairwise (· < ·) :=
  .cons (fun _ h => (bounds_of_mem_startsAfter h).1) (pairwise_startsAfter 0 text)

/-! ## Spans of lines -/

/-- The span of a line starts where the line does. -/
theorem getElem?_starts_of_span? (h : l.span? i = some span) :
    l.starts[i]? = some span.start := by
  obtain ⟨start, hstart, rfl⟩ := Option.map_eq_some_iff.mp h
  exact hstart

/-- **No two lines share a span**, not even with the empty line at the
end. -/
theorem span?_inj {text : String} (hi : (ofText text).span? i = some span)
    (hj : (ofText text).span? j = some span) : i = j := by
  have hnodup : (ofText text).starts.Nodup := (pairwise_starts text.toList).imp Nat.ne_of_lt
  have hstart := getElem?_starts_of_span? hi
  obtain ⟨hlt, -⟩ := List.getElem?_eq_some_iff.mp hstart
  exact (List.getElem?_inj hlt hnodup).mp (hstart.trans (getElem?_starts_of_span? hj).symm)

/-- So lines and spans are repeated together. -/
theorem eraseDups_filterMap_span? (text : String) (lines : List Nat) :
    (lines.filterMap (ofText text).span?).eraseDups =
      lines.eraseDups.filterMap (ofText text).span? :=
  eraseDups_filterMap (fun _ _ _ => span?_inj) lines

/-- A span is listed exactly if its line is. -/
theorem mem_filterMap_span? {text : String} (h : (ofText text).span? i = some span)
    (lines : List Nat) : span ∈ lines.filterMap (ofText text).span? ↔ i ∈ lines := by
  rw [List.mem_filterMap]
  constructor
  · rintro ⟨j, hj, hspan⟩
    exact span?_inj h hspan ▸ hj
  · intro hi
    exact ⟨i, hi, h⟩

end Lines

end Marginalia
