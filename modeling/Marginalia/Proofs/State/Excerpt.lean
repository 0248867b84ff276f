import Marginalia.State.Excerpt
import Mathlib.Data.List.Basic

/-!
# State — what an excerpt has of its sequence

Every way to make an excerpt makes a proper one (`Excerpt.proper_complete`,
`Excerpt.proper_shorten`, `Excerpt.proper_ofParts?`, `Excerpt.Proper.map`).
What a shortened
sequence has at an index is what the sequence has there
(`Excerpt.get?_of_shorten`), and its length is that of the sequence.
-/

namespace Marginalia

namespace Excerpt

variable {α : Type} {front items : List α} {last : Option α} {limit n i : Nat} {a : α}
variable {e : Excerpt α}

@[simp] theorem length_complete (items : List α) : (complete items).length = items.length := rfl

@[simp] theorem length_shorten (items : List α) (limit : Nat) :
    (shorten items limit).length = items.length := by
  unfold shorten
  split <;> rfl

/-! ## Proper excerpts -/

theorem proper_complete (items : List α) : (complete items).Proper :=
  ⟨Nat.le_refl _, fun _ => rfl⟩

theorem proper_shorten (items : List α) (limit : Nat) : (shorten items limit).Proper := by
  unfold shorten
  split
  · exact proper_complete items
  · have hlast := Option.length_toList_le (o := items.getLast?)
    constructor
    · simp only [includedCount, List.length_take]
      omega
    · intro hcount
      simp only [includedCount, List.length_take] at hcount
      omega

theorem proper_ofParts? (h : ofParts? front last n = .ok e) : e.Proper := by
  simp only [ofParts?] at h
  split at h
  · cases h
  · split at h
    · cases h
      exact proper_complete _
    · cases h
      refine ⟨?_, fun hcount => ?_⟩ <;> simp only [includedCount] at * <;> omega

theorem Proper.map {β : Type} (h : e.Proper) (f : α → β) : (e.map f).Proper := by
  have hcount : (e.map f).includedCount = e.includedCount := by
    simp only [includedCount, Excerpt.map, List.length_map]
    cases e.last <;> rfl
  refine ⟨hcount ▸ h.1, fun hfull => ?_⟩
  rw [Excerpt.map, h.2 (hcount ▸ hfull), Option.map_none]

/-- A proper excerpt is made again from its parts. -/
theorem Proper.ofParts? (h : e.Proper) : ofParts? e.front e.last e.length = .ok e := by
  obtain ⟨front, last, n⟩ := e
  obtain ⟨hle, hlast⟩ := h
  simp only [includedCount] at hle hlast
  simp only [Excerpt.ofParts?, if_neg (Nat.not_lt.mpr hle)]
  split
  · rename_i hcount
    obtain rfl := hlast hcount
    simp [complete, ← hcount]
  · rfl

/-! ## Elements by index -/

@[simp] theorem get?_complete (items : List α) (i : Nat) :
    (complete items).get? i = items[i]? := by
  simp only [get?, complete]
  cases items[i]? with
  | some a => rfl
  | none => exact ite_self _

/-- An element is in front, or else it is the last one. -/
theorem get?_eq_some :
    e.get? i = some a ↔
      e.front[i]? = some a ∨ e.front.length ≤ i ∧ i + 1 = e.length ∧ e.last = some a := by
  unfold get?
  cases hfront : e.front[i]? with
  | some b =>
    have hlt : i < e.front.length := (List.getElem?_eq_some_iff.mp hfront).1
    simp only [Option.some.injEq]
    exact ⟨.inl, fun h => h.elim id fun h => absurd h.1 (by omega)⟩
  | none =>
    have hle : e.front.length ≤ i := List.getElem?_eq_none_iff.mp hfront
    simp [hle]

/-- The elements that are there, without their indices. -/
theorem map_snd_included (e : Excerpt α) :
    e.included.map Prod.snd = e.front ++ e.last.toList := by
  rw [included, List.map_append, List.map_map, List.map_map]
  congr 1
  · exact List.zipIdx_map_fst 0 e.front
  · exact List.map_id _

/-- A last element is only kept apart if something is lacking in front of
it. -/
theorem Proper.front_lt_of_last (h : e.Proper) (hlast : e.last = some a) :
    e.front.length + 1 < e.length := by
  obtain ⟨hle, hfull⟩ := h
  have hcount : e.includedCount = e.front.length + 1 := by simp [includedCount, hlast]
  have hlacking : e.includedCount ≠ e.length := by
    intro heq
    have hnone := hfull heq
    rw [hlast] at hnone
    cases hnone
  omega

/-- What a proper excerpt lists with its indices is what it has at them. -/
theorem Proper.mem_included (h : e.Proper) : (i, a) ∈ e.included ↔ e.get? i = some a := by
  have hincluded : e.included =
      e.front.zipIdx.map Prod.swap ++ e.last.toList.map fun a => (e.length - 1, a) := rfl
  have hfront : (i, a) ∈ e.front.zipIdx.map Prod.swap ↔ e.front[i]? = some a := by
    rw [← List.mk_mem_zipIdx_iff_getElem?, List.mem_map]
    constructor
    · rintro ⟨⟨b, j⟩, hmem, hswap⟩
      cases hswap
      exact hmem
    · intro hmem
      exact ⟨(a, i), hmem, rfl⟩
  rw [hincluded, List.mem_append, hfront, get?_eq_some, List.mem_map]
  simp only [Option.mem_toList, Prod.mk.injEq]
  constructor
  · rintro (hfront | ⟨b, hb, rfl, rfl⟩)
    · exact .inl hfront
    · have := h.front_lt_of_last hb
      exact .inr ⟨by omega, by omega, hb⟩
  · rintro (hfront | ⟨-, hi, ha⟩)
    · exact .inl hfront
    · exact .inr ⟨a, ha, by omega, rfl⟩

/-- **A shortened sequence has what the sequence has**, index by index. -/
theorem get?_of_shorten (h : (shorten items limit).get? i = some a) : items[i]? = some a := by
  unfold shorten at h
  split at h
  · rwa [get?_complete] at h
  · rcases get?_eq_some.mp h with hfront | ⟨-, hi, hlast⟩
    · simp only [List.getElem?_take] at hfront
      split at hfront
      · exact hfront
      · cases hfront
    · have hi : i = items.length - 1 := by
        simp only at hi
        omega
      rwa [List.getLast?_eq_getElem?, ← hi] at hlast

end Excerpt

end Marginalia
