import Marginalia.Trace.Player
import Mathlib.Data.List.Basic

/-!
# Trace — the steps that are kept and the one on show

A reported step is kept at its place or rejected for want of one
(`RawStep.place_cases`), and none is lost (`Trace.length_sort`). The kept
steps are those that have a place (`Trace.sort_fst`), in the order of
their positions (`Trace.ordered_ofRaw`), so in a text of the length that
they were sorted for every one can be shown (`Trace.renderable_ofRaw`).

The cursor of a player is on one of its steps, or nowhere if there is
none (`Player.Seated`). Every move is a `Player.seek`, and `seek` keeps
to the steps.
-/

namespace Marginalia

/-! ## Places -/

namespace RawStep

/-- Where a step is shown in a text of `n` characters: where its innermost
frame is executing, if that fits. -/
def place? (s : RawStep) (n : Nat) : Option Span := s.span?.filter (·.fits n)

/-- **A step is kept at its place, or rejected for want of one.** -/
theorem place_cases (n i : Nat) (s : RawStep) :
    (∃ span, s.place? n = some span ∧ s.place n i = .ok (s.placed i span)) ∨
      s.place? n = none ∧ ∃ r, s.place n i = .error r := by
  unfold place place?
  cases s.span? with
  | none => exact .inr ⟨rfl, _, rfl⟩
  | some span =>
    by_cases hfits : span.fits n = true
    · exact .inl ⟨span, if_pos hfits, if_pos hfits⟩
    · exact .inr ⟨if_neg hfits, _, if_neg hfits⟩

end RawStep

namespace Trace

variable {raw : RawTrace} {n i : Nat} {step : Step} {steps : List RawStep}

/-! ## What is kept -/

/-- **The kept steps are those that have a place**, in their order. -/
theorem sort_fst (n i : Nat) (steps : List RawStep) :
    (sort n i steps).1 =
      (steps.zipIdx i).filterMap fun (s, j) => (s.place? n).map (s.placed j) := by
  induction steps generalizing i with
  | nil => rfl
  | cons s steps ih =>
    rw [List.zipIdx_cons, List.filterMap_cons, ← ih]
    simp only [sort]
    rcases s.place_cases n i with ⟨span, hspan, hplace⟩ | ⟨hnone, r, hplace⟩
    · simp only [hplace, hspan, Option.map_some]
    · simp only [hplace, hnone, Option.map_none]

theorem mem_sort_fst : step ∈ (sort n i steps).1 ↔
    ∃ (k : Nat) (s : RawStep) (span : Span),
      steps[k]? = some s ∧ s.place? n = some span ∧ s.placed (i + k) span = step := by
  rw [sort_fst, List.mem_filterMap]
  constructor
  · rintro ⟨⟨s, j⟩, hs, hstep⟩
    obtain ⟨span, hspan, hstep⟩ := Option.map_eq_some_iff.mp hstep
    obtain ⟨hle, hget⟩ := List.mk_mem_zipIdx_iff_le_and_getElem?_sub.mp hs
    exact ⟨j - i, s, span, hget, hspan, by rw [Nat.add_sub_cancel' hle, hstep]⟩
  · rintro ⟨k, s, span, hs, hspan, hstep⟩
    refine ⟨(s, i + k), ?_, Option.map_eq_some_iff.mpr ⟨span, hspan, hstep⟩⟩
    rw [List.mk_mem_zipIdx_iff_le_and_getElem?_sub, Nat.add_sub_cancel_left]
    exact ⟨Nat.le_add_right i k, hs⟩

theorem fits_of_mem_sort (h : step ∈ (sort n i steps).1) : step.span.fits n = true := by
  obtain ⟨k, s, span, -, hspan, rfl⟩ := mem_sort_fst.mp h
  exact (Option.filter_eq_some_iff.mp hspan).2

theorem le_index_of_mem_sort (h : step ∈ (sort n i steps).1) : i ≤ step.index := by
  obtain ⟨k, s, span, -, -, rfl⟩ := mem_sort_fst.mp h
  exact Nat.le_add_right i k

/-- **No step is lost.** -/
theorem length_sort (n i : Nat) (steps : List RawStep) :
    (sort n i steps).1.length + (sort n i steps).2.length = steps.length := by
  induction steps generalizing i with
  | nil => rfl
  | cons s steps ih =>
    have hrest := ih (i + 1)
    simp only [sort]
    cases s.place n i <;> simp only [List.length_cons] <;> omega

theorem length_ofRaw (raw : RawTrace) (n : Nat) :
    (ofRaw raw n).size + (ofRaw raw n).rejected.length = raw.steps.length :=
  length_sort n 0 raw.steps

theorem ordered_sort (n i : Nat) (steps : List RawStep) :
    (sort n i steps).1.Pairwise fun a b => a.index < b.index := by
  induction steps generalizing i with
  | nil => exact .nil
  | cons s steps ih =>
    simp only [sort]
    rcases s.place_cases n i with ⟨span, -, hplace⟩ | ⟨-, r, hplace⟩
    · rw [hplace]
      exact List.pairwise_cons.mpr ⟨fun _ hb => le_index_of_mem_sort hb, ih (i + 1)⟩
    · rw [hplace]
      exact ih (i + 1)

/-- **The kept steps are in the order in which they were reported.** -/
theorem ordered_ofRaw (raw : RawTrace) (n : Nat) :
    (ofRaw raw n).steps.Pairwise fun a b => a.index < b.index :=
  ordered_sort n 0 raw.steps

/-- **Every kept step can be shown** in a text of the length that the
steps were sorted for. -/
theorem renderable_ofRaw (raw : RawTrace) (n : Nat) :
    (ofRaw raw n).renderable n = List.range (ofRaw raw n).size := by
  have hall : ∀ x ∈ (ofRaw raw n).steps.zipIdx, x.1.span.fits n = true := by
    intro x hx
    exact fits_of_mem_sort (List.fst_mem_of_mem_zipIdx hx)
  rw [renderable, List.filter_eq_self.mpr hall, List.zipIdx_map_snd, List.range_eq_range', size]

/-- To ask for the step at every position is to go through the steps. -/
theorem filterMap_range {β : Type} (t : Trace) (g : Nat → Step → β) :
    ((List.range t.size).filterMap fun i => t.steps[i]?.map (g i)) = t.steps.mapIdx g := by
  have hsteps : ∀ x ∈ t.steps.zipIdx, t.steps[x.2]?.map (g x.2) = some (g x.2 x.1) := by
    intro x hx
    rw [List.mem_zipIdx_iff_getElem?.mp hx, Option.map_some]
  rw [List.range_eq_range', size, ← List.zipIdx_map_snd, List.filterMap_map,
    List.mapIdx_eq_zipIdx_map, ← List.filterMap_eq_map]
  exact List.filterMap_congr hsteps

end Trace

namespace Player

variable {p : Player}

/-- **The cursor is on a step**, or nowhere if there is none. -/
structure Seated (p : Player) : Prop where
  none_iff : p.current = none ↔ p.size = 0
  lt_size : ∀ i, p.current = some i → i < p.size

theorem seated_empty : empty.Seated where
  none_iff := by simp [empty, size, Trace.size, Trace.empty]
  lt_size _ h := by cases h

/-- A move changes the cursor alone. -/
theorem seek_eq (p : Player) (i : Nat) : p.seek i = { p with current := (p.seek i).current } := by
  unfold seek
  split <;> rfl

@[simp] theorem trace_seek (p : Player) (i : Nat) : (p.seek i).trace = p.trace := by
  unfold seek
  split <;> rfl

@[simp] theorem size_seek (p : Player) (i : Nat) : (p.seek i).size = p.size := by
  rw [size, trace_seek, size]

/-- A position past the end is not gone to. -/
theorem current_seek (p : Player) (i : Nat) :
    (p.seek i).current = if i < p.size then some i else p.current := by
  unfold seek
  split <;> rfl

/-- **No move leaves the steps.** -/
theorem Seated.seek (h : p.Seated) (i : Nat) : (p.seek i).Seated := by
  constructor
  · rw [current_seek, size_seek]
    split
    · simp only [reduceCtorEq, false_iff]
      omega
    · exact h.none_iff
  · intro j hj
    rw [current_seek] at hj
    rw [size_seek]
    split at hj
    · cases hj
      assumption
    · exact h.lt_size j hj

/-- To move on stops at the last step. -/
theorem Seated.current_next (h : p.Seated) :
    p.next.current = p.current.map fun i => min (i + 1) (p.size - 1) := by
  rw [next, current_seek]
  cases hcurrent : p.current with
  | none => simp [h.none_iff.mp hcurrent]
  | some i =>
    have hlt := h.lt_size i hcurrent
    rw [Option.elim_some, Option.map_some]
    split
    · rw [Nat.min_eq_left (by omega)]
    · rw [Nat.min_eq_right (by omega)]
      congr
      omega

/-- To move back stops at the first. -/
theorem Seated.current_prev (h : p.Seated) :
    p.prev.current = p.current.map (· - 1) := by
  rw [prev, current_seek]
  cases hcurrent : p.current with
  | none => simp [h.none_iff.mp hcurrent]
  | some i =>
    have hlt := h.lt_size i hcurrent
    rw [Option.elim_some, Option.map_some, if_pos (by omega)]

/-- There is a step on show unless there is none at all. -/
theorem Seated.step?_eq_none_iff (h : p.Seated) : p.step? = none ↔ p.size = 0 := by
  unfold step?
  cases hcurrent : p.current with
  | none => simp [h.none_iff.mp hcurrent]
  | some i =>
    have hlt := h.lt_size i hcurrent
    unfold size Trace.size at hlt ⊢
    rw [Option.bind_some, List.getElem?_eq_none_iff]
    omega

end Player

end Marginalia
