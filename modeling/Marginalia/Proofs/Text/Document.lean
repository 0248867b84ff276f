import Marginalia.Text.Document

/-!
# Text — documents under edits

An edit that fits makes the next revision and is kept under its number.
So no kept edit lies beyond the current revision (`Document.Kept`), and
a span that was taken at the current revision has no edit to be followed
through: it lies where it is (`Document.map?_now`).
-/

namespace Marginalia

namespace Document

variable {d d' : Document} {e : Edit}

/-- No edit is kept that led beyond the current revision. -/
def Kept (d : Document) : Prop :=
  ∀ x ∈ d.log, x.1.number ≤ d.revision.number

theorem kept_ofText (text : String) : (ofText text).Kept := by
  intro x hx
  exact absurd hx List.not_mem_nil

/-- **An edit that fits replaces characters**, though it works on the
bytes of the text. -/
theorem apply_eq (d : Document) (e : Edit) :
    d.apply e =
      if e.span.fits d.length then
        .ok ⟨String.ofList (e.splice d.text.toList),
          d.length - e.span.length + e.replacement.length, d.revision.next,
          ((d.revision.next, e) :: d.log).take memory⟩
      else .error ⟨e.span, d.length⟩ := by
  unfold apply
  split
  · simp only [Text.replaceBytes_byteOffset]
    rfl
  · rfl

/-- What an edit makes of a document it fits. -/
theorem eq_of_apply (h : d.apply e = .ok d') :
    e.span.fits d.length = true ∧
      d' = ⟨String.ofList (e.splice d.text.toList),
        d.length - e.span.length + e.replacement.length, d.revision.next,
        ((d.revision.next, e) :: d.log).take memory⟩ := by
  rw [apply_eq] at h
  split at h
  · rename_i hfits
    exact ⟨hfits, (Except.ok.inj h).symm⟩
  · cases h

/-- An edit that fits makes the next revision. -/
theorem revision_of_apply (h : d.apply e = .ok d') : d'.revision = d.revision.next := by
  obtain ⟨-, rfl⟩ := eq_of_apply h
  rfl

/-- So it leads to a later one. -/
theorem revision_lt_of_apply (h : d.apply e = .ok d') :
    d.revision.number < d'.revision.number := by
  rw [revision_of_apply h]
  exact Nat.lt_succ_self _

theorem Kept.apply (hd : d.Kept) (h : d.apply e = .ok d') : d'.Kept := by
  obtain ⟨-, rfl⟩ := eq_of_apply h
  intro x hx
  rcases List.mem_cons.mp (List.mem_of_mem_take hx) with rfl | hx
  · exact Nat.le_refl _
  · exact Nat.le_succ_of_le (hd x hx)

/-- **A span of the current revision lies where it is.** -/
theorem map?_now (hd : d.Kept) (span : Span) : d.map? span d.revision = some span := by
  have hlt : ¬ d.revision < d.revision := Nat.lt_irrefl d.revision.number
  have hnone : (d.log.filter fun x => decide (d.revision < x.1)) = [] := by
    rw [List.filter_eq_nil_iff]
    intro x hx hx'
    exact absurd (of_decide_eq_true hx') (Nat.not_lt.mpr (hd x hx))
  simp [map?, hlt, hnone, follow]

end Document

end Marginalia
