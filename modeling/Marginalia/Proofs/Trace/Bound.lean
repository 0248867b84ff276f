import Marginalia.Proofs.Trace.Codec
import Marginalia.Proofs.State.Bound
import Marginalia.Proofs.Analysis.Bound

/-!
# Trace — what is read of an execution can be sent

Whatever an execution was spelled as, what it is read as can be sent, and
its message nests no deeper than what is known of the one that was read
(`RawTrace.gives`). Values are the one part of it that may nest at will:
their outline is the one that refers to itself.
-/

namespace Marginalia

open Json Json.Decoder

def Binding.outline : Outline := .record [("name", .whole), ("value", .again)]

theorem Binding.gives :
    decoder.Gives Value.outline outline (Within (·.value.Sendable) toJson) := by
  refine gives_record (by decide) (.seq (.map (.required gives_trivial _) ?_)
    (.required Value.gives.again _))
  intro b name _ value hvalue
  exact ⟨hvalue.1, by simpa [toJson, nesting, nestingMembers] using hvalue.2⟩

def Frame.outline : Outline :=
  .record [("name", .whole), ("body_range", Span.outline), ("location", Span.outline),
    ("locals", .list Binding.outline)]

theorem Frame.gives : decoder.Gives Value.outline outline (Within Sendable toJson) := by
  refine gives_record (by decide) (.seq (.seq (.seq (.map (.required gives_trivial _) ?_)
    (.required Span.gives _)) (.required Span.gives _)) (.required Binding.gives.listWithin _))
  intro b name _ body hbody location hlocation locals hlocals
  refine ⟨⟨hbody.1, hlocation.1, List.forall_mem_map.mpr hlocals.1⟩, ?_⟩
  simpa [toJson, nesting, nestingMembers, Nat.max_le] using ⟨hbody.2, hlocation.2, hlocals.2⟩

def RawStep.outline : Outline :=
  .record [("frames", .list Frame.outline), ("heap", .list .again)]

theorem RawStep.gives : decoder.Gives Value.outline outline (Within Sendable toJson) := by
  refine gives_record (by decide) (.seq (.map (.required Frame.gives.listWithin _) ?_)
    (.defaultedWithin Value.gives.again.listWithin _ ⟨List.forall_mem_nil _, Nat.le_refl 1⟩))
  intro b frames hframes heap hheap
  refine ⟨⟨hframes.1, hheap.1⟩, ?_⟩
  have hshort := hheap.of_open (Nat.le_trans (Nat.le_add_left 1 _) hframes.2)
  simpa [toJson, nesting, nestingMembers, Nat.max_le] using ⟨hframes.2, hshort.2⟩

def Ending.outline : Outline :=
  .beside [("Success", .whole), ("Error", .record [("message", .whole), ("range", Span.outline)])]

theorem Ending.gives {root : Outline} : decoder.Gives root outline (Within Sendable toJson) := by
  refine gives_beside (.cons ⟨rfl, .bare fun b _ => ⟨trivial, Nat.le_add_left 1 b⟩⟩
    (.cons ⟨rfl, .record (by decide) (.seq (.map (.required gives_trivial _) ?_)
      (.optional Span.gives _))⟩ .nil))
  intro b message _ span hspan
  refine ⟨fun s hs => (hspan s hs).1, ?_⟩
  cases span with
  | none => simp [toJson, Json.orNull, nesting, nestingMembers]
  | some s => simpa [toJson, Json.orNull, nesting, nestingMembers] using (hspan s rfl).2

/-- What is known of an execution. -/
def RawTrace.outline : Outline :=
  .record [("steps", .list RawStep.outline), ("result", Ending.outline)]

/-- **What an execution is read as can be sent.** -/
theorem RawTrace.gives : decoder.Gives Value.outline outline (Within Sendable toJson) := by
  refine gives_record (by decide) (.seq (.map (.required RawStep.gives.listWithin _) ?_)
    (.defaultedWithin Ending.gives _ ⟨trivial, Nat.le_refl 1⟩))
  intro b steps hsteps ending hending
  refine ⟨⟨hsteps.1, hending.1⟩, ?_⟩
  have hshort := hending.of_open (Nat.le_trans (Nat.le_add_left 1 _) hsteps.2)
  simpa [toJson, nesting, nestingMembers, Nat.max_le] using ⟨hsteps.2, hshort.2⟩

end Marginalia
