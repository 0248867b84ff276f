import Marginalia.Trace.Basic
import Marginalia.Proofs.State.Codec
import Marginalia.Proofs.Analysis.Codec

/-!
# Trace — executions are read back

An execution whose spans fit machine words and whose values can be sent is
read back as it was (`RawTrace.reads`), whether it has a heap or an end
other than success to speak of. Of the finite doubles among its values it
is taken, as for values, that each is read back from its own text.
-/

namespace Marginalia

open Json Json.Decoder

variable {m : Nat}

/-! ## Frames -/

theorem Binding.reads {b : Binding} (h : b.value.Sendable) (hx : b.value.DoublesReadBack) :
    Reads m decoder b.toJson b := by
  refine Reads.mono (reads_record ?_ ⟨by simp, by simp⟩) (Nat.le_add_right m 1)
  exact ((Fields.Reads.required rfl (reads_string b.name)).map _).seq (.required rfl (h.reads hx))

/-- Every value of a frame, in the order of the locals. -/
def Frame.values (f : Frame) : List Value := f.locals.map Binding.value

/-- The spans of a frame fit, and its values can be sent. -/
structure Frame.Sendable (f : Frame) : Prop where
  body : f.body.Sendable
  location : f.location.Sendable
  values : ∀ v ∈ f.values, v.Sendable

theorem Frame.reads {f : Frame} (h : f.Sendable) (hx : ∀ v ∈ f.values, v.DoublesReadBack) :
    Reads m decoder f.toJson f := by
  refine Reads.mono (reads_record ?_ ⟨by simp, by simp⟩) (Nat.le_add_right m 2)
  have hlocals : Reads (m + 1) (.list Binding.decoder) (.list Binding.toJson f.locals) f.locals :=
    reads_list fun b hb =>
      Binding.reads (h.values _ (List.mem_map_of_mem hb)) (hx _ (List.mem_map_of_mem hb))
  exact ((((Fields.Reads.required rfl (reads_string f.name)).map _).seq
    (.required rfl (Span.reads h.body))).seq (.required rfl (Span.reads h.location))).seq
    (.required rfl hlocals)

/-! ## Steps -/

/-- Every value of a step: the locals frame by frame, then the heap. -/
def RawStep.values (s : RawStep) : List Value := s.frames.flatMap Frame.values ++ s.heap

/-- The frames of a step and the values of its heap can be sent. -/
structure RawStep.Sendable (s : RawStep) : Prop where
  frames : ∀ f ∈ s.frames, f.Sendable
  heap : ∀ v ∈ s.heap, v.Sendable

theorem RawStep.reads {s : RawStep} (h : s.Sendable) (hx : ∀ v ∈ s.values, v.DoublesReadBack) :
    Reads m decoder s.toJson s := by
  rw [RawStep.values, List.forall_mem_append, List.forall_mem_flatMap] at hx
  refine Reads.mono (reads_record ?_ ⟨by simp, by simp⟩) (Nat.le_add_right m 2)
  have hframes := reads_list (n := m) fun f hf => Frame.reads (h.frames f hf) (hx.1 f hf)
  have hheap := reads_list (n := m) fun v hv => (h.heap v hv).reads (hx.2 v hv)
  exact ((Fields.Reads.required rfl hframes).map _).seq (.defaulted rfl hheap)

/-! ## Executions -/

/-- The place of a fault fits, if it is known. -/
def Ending.Sendable : Ending → Prop
  | .success => True
  | .fault _ span => ∀ s ∈ span, s.Sendable

theorem Ending.reads {e : Ending} (h : e.Sendable) : Reads m decoder e.toJson e := by
  refine Reads.mono ?_ (Nat.le_add_right m 2)
  cases e with
  | success => exact reads_kindOnly rfl
  | fault message span =>
    have hspan : Reads m (optional Span.decoder) (Json.orNull Span.toJson span) span := by
      cases span with
      | none => exact reads_optional_none _
      | some s => exact (Span.reads (h s rfl)).optional_some s.toJson_ne_null
    refine .beside rfl (reads_content ?_ ⟨by simp, by simp⟩)
    exact ((Fields.Reads.required rfl (reads_string message)).map _).seq (.optional rfl hspan)

/-- Every value of an execution, step by step. -/
def RawTrace.values (t : RawTrace) : List Value := t.steps.flatMap RawStep.values

/-- The steps of an execution and its end can be sent. -/
structure RawTrace.Sendable (t : RawTrace) : Prop where
  steps : ∀ s ∈ t.steps, s.Sendable
  ending : t.ending.Sendable

/-- **An execution is read back.** -/
theorem RawTrace.reads {t : RawTrace} (h : t.Sendable) (hx : ∀ v ∈ t.values, v.DoublesReadBack) :
    Reads m decoder t.toJson t := by
  rw [RawTrace.values, List.forall_mem_flatMap] at hx
  refine Reads.mono (reads_record ?_ ⟨by simp, by simp⟩) (Nat.le_add_right m 2)
  have hsteps := reads_list (n := m) fun s hs => RawStep.reads (h.steps s hs) (hx s hs)
  exact ((Fields.Reads.required rfl hsteps).map _).seq
    (.defaulted rfl (Ending.reads h.ending))

end Marginalia
