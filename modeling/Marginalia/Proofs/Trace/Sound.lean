import Marginalia.Proofs.Trace.Codec
import Marginalia.Proofs.Trace.Gaps

/-!
# Trace — executions with nothing to complain about

A reported step is sound in a text if its innermost frame is executing
at a place in it and every pointer that stands in one of its values leads
somewhere (`RawStep.Sound`). Which steps are kept, and where, is said of
the reported steps alone (`Trace.steps_ofRaw`), and so is when nothing of
an execution is complained about: when every step is sound
(`RawTrace.sound_iff`).

Only kept steps are looked through for pointers. That makes no
difference where none is rejected.
-/

namespace Marginalia

/-! ## Steps -/

namespace RawStep

variable {s : RawStep} {n : Nat}

/-- The state that the paths of a step are followed in. -/
def snapshot (s : RawStep) : Snapshot :=
  ⟨s.frames.map fun f => f.locals.map fun l => (l.name, l.value), s.heap⟩

/-- **A step with a place in a text of `n` characters**, whose pointers
all lead somewhere. -/
structure Sound (s : RawStep) (n : Nat) : Prop where
  place : ∃ innermost, s.frames.getLast? = some innermost ∧
    innermost.location.start ≤ innermost.location.stop ∧ innermost.location.stop ≤ n
  /-- However deep a pointer stands in a local or in a cell of the heap. -/
  pointers : ∀ v ∈ s.values, ∀ path, v.Holds (.pointer path) →
    ∃ target, s.snapshot.resolve path = .ok target

theorem exists_place?_iff : (∃ span, s.place? n = some span) ↔
    ∃ innermost, s.frames.getLast? = some innermost ∧
      innermost.location.start ≤ innermost.location.stop ∧ innermost.location.stop ≤ n := by
  simp [place?, span?, Span.fits, Option.filter_eq_some_iff]

end RawStep

namespace Trace

variable {t : Trace}

/-! ## What is kept -/

/-- **The kept steps are those that have a place**, each at the position
where it was reported. -/
theorem steps_ofRaw (raw : RawTrace) (n : Nat) :
    (ofRaw raw n).steps =
      raw.steps.zipIdx.filterMap fun (s, i) => (s.place? n).map (s.placed i) :=
  sort_fst n 0 raw.steps

theorem sort_snd_eq_nil_iff (n i : Nat) (steps : List RawStep) :
    (sort n i steps).2 = [] ↔ ∀ s ∈ steps, ∃ span, s.place? n = some span := by
  induction steps generalizing i with
  | nil => simp [sort]
  | cons s steps ih =>
    rw [List.forall_mem_cons, ← ih (i + 1)]
    simp only [sort]
    rcases s.place_cases n i with ⟨span, hspan, hplace⟩ | ⟨hnone, r, hplace⟩
    · simp [hplace, hspan]
    · simp [hplace, hnone]

/-- Nothing is rejected where every step has a place. -/
theorem rejected_eq_nil_iff (raw : RawTrace) (n : Nat) :
    (ofRaw raw n).rejected = [] ↔ ∀ s ∈ raw.steps, ∃ span, s.place? n = some span :=
  sort_snd_eq_nil_iff n 0 raw.steps

/-! ## What leads nowhere -/

theorem danglingPointers_eq_nil_iff :
    t.danglingPointers = [] ↔ ∀ step ∈ t.steps, ∀ v ∈ step.values, ∀ path,
      v.Holds (.pointer path) → ∃ target, step.snapshot.resolve path = .ok target := by
  have hdangling (s : Snapshot) (path : Path) :
      s.dangling? path = none ↔ ∃ target, s.resolve path = .ok target := by
    rw [Snapshot.dangling?]
    cases s.resolve path <;> simp
  simp only [danglingPointers_eq, List.flatMap_eq_nil_iff, List.map_eq_nil_iff,
    Step.errors_view_eq_filterMap, List.filterMap_eq_nil_iff, List.mem_flatMap, hdangling,
    Value.mem_pointers]
  constructor
  · intro h step hstep v hv path hpath
    exact h step hstep path ⟨v, hv, hpath⟩
  · rintro h step hstep path ⟨v, hv, hpath⟩
    exact h step hstep v hv path hpath

end Trace

/-! ## Whole executions -/

/-- **Nothing is complained about exactly where every step is sound.** -/
theorem RawTrace.sound_iff (raw : RawTrace) (n : Nat) :
    (Trace.ofRaw raw n).rejected = [] ∧ (Trace.ofRaw raw n).danglingPointers = [] ↔
      ∀ s ∈ raw.steps, s.Sound n := by
  rw [Trace.rejected_eq_nil_iff, Trace.danglingPointers_eq_nil_iff]
  constructor
  · rintro ⟨hplace, hpointers⟩ s hs
    obtain ⟨span, hspan⟩ := hplace s hs
    obtain ⟨k, hk⟩ := List.mem_iff_getElem?.mp hs
    exact ⟨RawStep.exists_place?_iff.mp ⟨span, hspan⟩,
      hpointers (s.placed (0 + k) span) (Trace.mem_sort_fst.mpr ⟨k, s, span, hk, hspan, rfl⟩)⟩
  · intro h
    refine ⟨fun s hs => RawStep.exists_place?_iff.mpr (h s hs).place, fun step hstep => ?_⟩
    obtain ⟨k, s, span, hk, -, rfl⟩ := Trace.mem_sort_fst.mp hstep
    exact (h s (List.mem_of_getElem? hk)).pointers

end Marginalia
