import Marginalia.Proofs.Trace.Sound

/-!
# Trace — kept or rejected

The steps of a report are sorted into those that have a place in the
text and those that have none. Why a step is rejected is read off the
step alone (`RawStep.place_eq_error_iff`), and so is which rejections
there are (`Trace.sort_snd`), as it is for the kept ones. So every
reported step is on one side, and on that side once
(`Trace.perm_indices_sort`).

In a text of another length some of the kept steps can be shown. These
are the ones that end in time (`Trace.mem_renderable_ofRaw`); a longer
text shows at least those that a shorter one shows.
-/

namespace Marginalia

/-! ## One step -/

namespace RawStep

variable {s : RawStep} {n i : Nat} {r : Rejection}

/-- **Why a step is rejected**: nothing is executing, or what is does not
fit in the text. -/
theorem place_eq_error_iff : s.place n i = .error r ↔
    s.frames = [] ∧ r = .emptyStack i ∨
      ∃ innermost, s.frames.getLast? = some innermost ∧
        ¬ (innermost.location.start ≤ innermost.location.stop ∧ innermost.location.stop ≤ n) ∧
        r = .outOfBounds i innermost.location n := by
  unfold place span?
  cases hlast : s.frames.getLast? with
  | none =>
    have hframes : s.frames = [] := List.getLast?_eq_none_iff.mp hlast
    simp [hframes, eq_comm]
  | some innermost =>
    have hframes : s.frames ≠ [] := by
      rintro hnil
      rw [hnil] at hlast
      cases hlast
    have hfits : innermost.location.fits n = true ↔
        innermost.location.start ≤ innermost.location.stop ∧ innermost.location.stop ≤ n := by
      simp [Span.fits]
    simp only [Option.map_some, Option.some.injEq, exists_eq_left', hframes, false_and, false_or,
      ← hfits]
    by_cases hplace : innermost.location.fits n = true
    · simp [hplace]
    · simp [hplace, eq_comm]

/-- A rejection names the position of its step. -/
theorem step_of_place (h : s.place n i = .error r) : r.step = i := by
  rcases place_eq_error_iff.mp h with ⟨-, rfl⟩ | ⟨_, -, -, rfl⟩ <;> rfl

/-- Why a step has no place, if it has none. -/
def rejection? (s : RawStep) (n i : Nat) : Option Rejection :=
  match s.place n i with
  | .ok _ => none
  | .error r => some r

theorem rejection?_eq_some_iff : s.rejection? n i = some r ↔ s.place n i = .error r := by
  unfold rejection?
  cases s.place n i <;> simp

end RawStep

/-! ## All steps -/

namespace Trace

variable {raw : RawTrace} {n i l : Nat} {r : Rejection} {step : Step} {steps : List RawStep}

/-- **The rejections are those of the steps without a place**, in their
order. -/
theorem sort_snd (n i : Nat) (steps : List RawStep) :
    (sort n i steps).2 = (steps.zipIdx i).filterMap fun (s, j) => s.rejection? n j := by
  induction steps generalizing i with
  | nil => rfl
  | cons s steps ih =>
    rw [List.zipIdx_cons, List.filterMap_cons, ← ih]
    simp only [sort, RawStep.rejection?]
    cases s.place n i <;> rfl

theorem mem_rejected_ofRaw : r ∈ (ofRaw raw n).rejected ↔
    ∃ (k : Nat) (s : RawStep), raw.steps[k]? = some s ∧ s.place n k = .error r := by
  have hrejected : (ofRaw raw n).rejected =
      raw.steps.zipIdx.filterMap fun (s, j) => s.rejection? n j := sort_snd n 0 raw.steps
  rw [hrejected, List.mem_filterMap]
  constructor
  · rintro ⟨⟨s, k⟩, hs, hr⟩
    exact ⟨k, s, List.mk_mem_zipIdx_iff_getElem?.mp hs, RawStep.rejection?_eq_some_iff.mp hr⟩
  · rintro ⟨k, s, hs, hr⟩
    exact ⟨(s, k), List.mk_mem_zipIdx_iff_getElem?.mpr hs, RawStep.rejection?_eq_some_iff.mpr hr⟩

/-- **No step is lost and none is on both sides.** -/
theorem perm_indices_sort (n i : Nat) (steps : List RawStep) :
    ((sort n i steps).1.map Step.index ++ (sort n i steps).2.map Rejection.step).Perm
      (List.range' i steps.length) := by
  induction steps generalizing i with
  | nil => exact .refl _
  | cons s steps ih =>
    rw [List.length_cons, List.range'_succ]
    simp only [sort]
    cases hplace : s.place n i with
    | ok step =>
      have hindex : step.index = i := by
        rcases s.place_cases n i with ⟨span, -, hok⟩ | ⟨-, r, herror⟩
        · rw [hplace] at hok
          rw [Except.ok.inj hok]
          rfl
        · rw [hplace] at herror
          cases herror
      simp only [List.map_cons, List.cons_append, hindex]
      exact (ih (i + 1)).cons i
    | error r =>
      have hstep := RawStep.step_of_place hplace
      simp only [List.map_cons, hstep]
      exact List.perm_middle.trans ((ih (i + 1)).cons i)

/-- The rejections are in the order in which the steps were reported. -/
theorem ordered_rejected_ofRaw (raw : RawTrace) (n : Nat) :
    (ofRaw raw n).rejected.Pairwise fun a b => a.step < b.step := by
  have hpositions : raw.steps.zipIdx.Pairwise fun x y => x.2 < y.2 := by
    rw [← List.pairwise_map, List.zipIdx_map_snd]
    exact List.pairwise_lt_range'
  show (sort n 0 raw.steps).2.Pairwise _
  rw [sort_snd]
  refine List.pairwise_filterMap.mpr (hpositions.imp ?_)
  intro x y hlt a ha b hb
  have hx := RawStep.step_of_place (RawStep.rejection?_eq_some_iff.mp ha)
  have hy := RawStep.step_of_place (RawStep.rejection?_eq_some_iff.mp hb)
  rwa [hx, hy]

theorem mem_steps_ofRaw : step ∈ (ofRaw raw n).steps ↔
    ∃ k s innermost, raw.steps[k]? = some s ∧ s.frames.getLast? = some innermost ∧
      innermost.location.start ≤ innermost.location.stop ∧ innermost.location.stop ≤ n ∧
      step = ⟨k, innermost.location, s.frames, s.heap⟩ := by
  have hkept : step ∈ (ofRaw raw n).steps ↔ ∃ (k : Nat) (s : RawStep) (span : Span),
      raw.steps[k]? = some s ∧ s.place? n = some span ∧ s.placed (0 + k) span = step :=
    mem_sort_fst
  rw [hkept]
  constructor
  · rintro ⟨k, s, span, hs, hspan, rfl⟩
    obtain ⟨hlocation, hfits⟩ := Option.filter_eq_some_iff.mp hspan
    obtain ⟨innermost, hinnermost, rfl⟩ := Option.map_eq_some_iff.mp hlocation
    simp only [Span.fits, Bool.and_eq_true, decide_eq_true_eq] at hfits
    refine ⟨k, s, innermost, hs, hinnermost, hfits.1, hfits.2, ?_⟩
    rw [Nat.zero_add, RawStep.placed]
  · rintro ⟨k, s, innermost, hs, hinnermost, hordered, hinside, rfl⟩
    have hspan : s.place? n = some innermost.location := by
      simp [RawStep.place?, RawStep.span?, hinnermost, Span.fits, hordered, hinside]
    exact ⟨k, s, innermost.location, hs, hspan, by rw [Nat.zero_add, RawStep.placed]⟩

/-! ## Texts of another length -/

theorem pairwise_renderable (t : Trace) (l : Nat) : (t.renderable l).Pairwise (· < ·) := by
  have hall : (t.steps.zipIdx.map Prod.snd).Pairwise (· < ·) := by
    rw [List.zipIdx_map_snd]
    exact List.pairwise_lt_range'
  exact hall.sublist (List.filter_sublist.map _)

theorem mem_renderable (t : Trace) :
    i ∈ t.renderable l ↔ ∃ step, t.steps[i]? = some step ∧ step.span.fits l = true := by
  simp only [renderable, List.mem_map, List.mem_filter, Prod.exists,
    List.mk_mem_zipIdx_iff_getElem?, exists_eq_right]

/-- Every kept step is in order, so the end of its span decides. -/
theorem mem_renderable_ofRaw : i ∈ (ofRaw raw n).renderable l ↔
    ∃ step, (ofRaw raw n).steps[i]? = some step ∧ step.span.stop ≤ l := by
  rw [mem_renderable]
  refine exists_congr fun step => and_congr_right fun hstep => ?_
  obtain ⟨k, s, innermost, -, -, hordered, -, rfl⟩ :=
    mem_steps_ofRaw.mp (List.mem_of_getElem? hstep)
  simp [Span.fits, hordered]

/-- **A longer text shows no less.** -/
theorem renderable_sublist (t : Trace) {l m : Nat} (h : l ≤ m) :
    (t.renderable l).Sublist (t.renderable m) := by
  refine (List.monotone_filter_right _ fun x hx => ?_).map _
  simp only [Span.fits, Bool.and_eq_true, decide_eq_true_eq] at hx ⊢
  exact ⟨hx.1, Nat.le_trans hx.2 h⟩

/-! ## Together -/

/-- **A report sorted out** for a text of `n` characters. -/
structure SortedOut (raw : RawTrace) (n : Nat) (t : Trace) : Prop where
  /-- Every reported step is kept or rejected, and that once, -/
  indices : (t.steps.map Step.index ++ t.rejected.map Rejection.step).Perm
    (List.range raw.steps.length)
  /-- on either side in the order of the report. -/
  kept_ascending : t.steps.Pairwise fun a b => a.index < b.index
  rejected_ascending : t.rejected.Pairwise fun a b => a.step < b.step
  /-- A step is kept, as it is, where its innermost frame is executing,
  if that is in order and in the text. -/
  mem_steps : ∀ step, step ∈ t.steps ↔
    ∃ i s innermost, raw.steps[i]? = some s ∧ s.frames.getLast? = some innermost ∧
      innermost.location.start ≤ innermost.location.stop ∧ innermost.location.stop ≤ n ∧
      step = ⟨i, innermost.location, s.frames, s.heap⟩
  /-- It is rejected if there is no frame, or with the place that is
  not. -/
  mem_rejected : ∀ r, r ∈ t.rejected ↔
    ∃ i s, raw.steps[i]? = some s ∧
      (s.frames = [] ∧ r = .emptyStack i ∨
        ∃ innermost, s.frames.getLast? = some innermost ∧
          ¬ (innermost.location.start ≤ innermost.location.stop ∧
            innermost.location.stop ≤ n) ∧
          r = .outOfBounds i innermost.location n)
  ending : t.ending = raw.ending
  /-- What a text of any length shows are the positions of the steps that
  end in it, in order: -/
  renderable_ascending : ∀ l, (t.renderable l).Pairwise (· < ·)
  mem_renderable : ∀ l i, i ∈ t.renderable l ↔
    ∃ step, t.steps[i]? = some step ∧ step.span.stop ≤ l
  /-- all of them in the text that they were sorted for, and more in a
  longer one. -/
  renderable_self : t.renderable n = List.range t.steps.length
  renderable_mono : ∀ l m, l ≤ m → (t.renderable l).Sublist (t.renderable m)

/-- **Every report is sorted out**, whatever its steps are like. -/
theorem ofRaw_sortedOut (raw : RawTrace) (n : Nat) : SortedOut raw n (ofRaw raw n) where
  indices := by
    rw [List.range_eq_range']
    exact perm_indices_sort n 0 raw.steps
  kept_ascending := ordered_ofRaw raw n
  rejected_ascending := ordered_rejected_ofRaw raw n
  mem_steps _ := mem_steps_ofRaw
  mem_rejected r := by
    rw [mem_rejected_ofRaw]
    exact exists_congr fun i => exists_congr fun s =>
      and_congr_right fun _ => RawStep.place_eq_error_iff
  ending := rfl
  renderable_ascending := pairwise_renderable _
  mem_renderable _ _ := mem_renderable_ofRaw
  renderable_self := renderable_ofRaw raw n
  renderable_mono _ _ h := renderable_sublist _ h

end Trace

end Marginalia
