import Marginalia.Overlay.Store
import Mathlib.Data.List.Forall2

/-!
# Overlay — effects tell what the store holds

A `Screen` is what a widget shows that starts empty and lets every
effect it is told set the layer of the effect. The effects that changes
leave behind (`Store.Track`) say all there is to say: the screen follows
the store (`Track.updateAll`), and the generations it hears of a layer
are those in between, each once (`Track.generations`). Changes that give
up no decorations *lead* from one store to another (`Store.Leads`).

What becomes of a layer that is filled depends on no other layer, so
different ones can be filled in any order (`replaceEach_comm`).
-/

namespace Marginalia

/-- What a widget shows on each layer. -/
abbrev Screen := Layer → List Decoration

namespace Screen

/-- Nothing is shown. -/
def blank : Screen := fun _ => []

/-- The layer of an effect shows what the effect says. -/
def update (w : Screen) (e : Effect) : Screen := fun l =>
  if l = e.layer then e.decorations else w l

/-- Effects taken one after the other. -/
def updateAll (w : Screen) (es : List Effect) : Screen := es.foldl update w

end Screen

/-! ## Batches -/

/-- Decorations that are all moved are related to where they are, each by
itself. -/
theorem forall₂_of_moveAll {R : Decoration → Decoration → Prop} {f : Span → Option Span}
    {entries moved : List Decoration}
    (hR : ∀ entry ∈ entries, ∀ span, f entry.span = some span → R entry { entry with span })
    (h : moveAll f entries = .ok moved) : List.Forall₂ R entries moved := by
  induction entries generalizing moved with
  | nil =>
    cases h
    exact .nil
  | cons entry entries ih =>
    rw [moveAll] at h
    cases hspan : f entry.span with
    | none => simp [hspan] at h
    | some span =>
      cases hmoved : moveAll f entries with
      | error edited => simp [hspan, hmoved] at h
      | ok ds =>
        simp only [hspan, hmoved, Except.ok.injEq] at h
        subst h
        refine .cons (hR entry List.mem_cons_self span hspan) (ih ?_ hmoved)
        exact fun e he => hR e (List.mem_cons_of_mem _ he)

namespace Store

variable {s t u : Store} {l l' : Layer} {c : Change} {es fs : List Effect}

/-! ## One change -/

@[simp] theorem slot_setSlot (s : Store) (l : Layer) (slot : Slot) :
    (s.setSlot l slot).slot l = slot := by
  cases l <;> rfl

theorem slot_setSlot_of_ne (h : l' ≠ l) (s : Store) (slot : Slot) :
    (s.setSlot l slot).slot l' = s.slot l' := by
  cases l <;> cases l' <;> first | rfl | exact absurd rfl h

@[simp] theorem layer_change (s : Store) (l : Layer) (c : Change) :
    (s.change l c).1.layer l = (s.change l c).2.decorations := by
  simp [change, layer, Slot.put]

theorem layer_change_of_ne (h : l' ≠ l) (s : Store) (c : Change) :
    (s.change l c).1.layer l' = s.layer l' := by
  simp [change, layer, slot_setSlot_of_ne h]

@[simp] theorem generation_change (s : Store) (l : Layer) (c : Change) :
    (s.change l c).1.generation l = s.generation l + 1 := by
  simp [change, generation, Slot.put]

theorem generation_change_of_ne (h : l' ≠ l) (s : Store) (c : Change) :
    (s.change l c).1.generation l' = s.generation l' := by
  simp [change, generation, slot_setSlot_of_ne h]

/-- **What an effect tells**: the layer that was changed, its next
generation and what it shows. No other layer was touched. -/
structure Touches (s : Store) (e : Effect) (t : Store) : Prop where
  generation : e.generation = s.generation e.layer + 1
  counted : t.generation e.layer = e.generation
  shown : t.layer e.layer = e.decorations
  others : ∀ l, l ≠ e.layer → t.layer l = s.layer l ∧ t.generation l = s.generation l

theorem touches_change (s : Store) (l : Layer) (c : Change) :
    Touches s (s.change l c).2 (s.change l c).1 where
  generation := rfl
  counted := generation_change s l c
  shown := layer_change s l c
  others _ h := ⟨layer_change_of_ne h s c, generation_change_of_ne h s c⟩

/-- So a change is seen on its layer and nowhere else. -/
theorem Touches.update {e : Effect} (h : Touches s e t) : Screen.update s.layer e = t.layer := by
  funext l
  by_cases hl : l = e.layer
  · subst hl
    rw [h.shown]
    exact if_pos rfl
  · rw [(h.others l hl).1]
    exact if_neg hl

/-! ## Many changes -/

/-- **Effects of changes that follow one another.** -/
inductive Track : Store → List Effect → Store → Prop
  /-- Nothing is changed. -/
  | refl {s : Store} : Track s [] s
  /-- One layer is changed, and then others are. -/
  | touch {s t u : Store} {e : Effect} {es : List Effect} :
      Touches s e t → Track t es u → Track s (e :: es) u

namespace Track

theorem trans (h : Track s es t) (h' : Track t fs u) : Track s (es ++ fs) u := by
  induction h with
  | refl => exact h'
  | touch he _ ih => exact touch he (ih h')

/-- **The screen follows the store.** -/
theorem updateAll (h : Track s es t) : Screen.updateAll s.layer es = t.layer := by
  induction h with
  | refl => rfl
  | touch he _ ih =>
    rw [← ih, ← he.update]
    rfl

/-- **A layer counts its changes.** -/
theorem generation (h : Track s es t) (l : Layer) :
    t.generation l = s.generation l + (es.map Effect.layer).count l := by
  induction h with
  | refl => rfl
  | @touch s t u e es he _ ih =>
    have hcounted := he.counted
    have hnext := he.generation
    rw [ih, List.map_cons, List.count_cons]
    by_cases hl : l = e.layer
    · subst hl
      rw [beq_self_eq_true, if_pos rfl]
      omega
    · rw [(he.others l hl).2, if_neg (by simpa using fun h => hl h.symm)]
      rfl

/-- **No generation of a layer is left out or told twice.** -/
theorem generations (h : Track s es t) (l : Layer) :
    (es.filter fun e => e.layer = l).map Effect.generation =
      List.range' (s.generation l + 1) ((es.map Effect.layer).count l) := by
  induction h with
  | refl => rfl
  | @touch s t u e es he _ ih =>
    by_cases hl : e.layer = l
    · subst hl
      rw [he.counted, he.generation] at ih
      rw [List.filter_cons_of_pos (by simp), List.map_cons, ih, List.map_cons,
        List.count_cons_self, List.range'_succ, he.generation]
    · rw [(he.others l fun h => hl h.symm).2] at ih
      rw [List.filter_cons_of_neg (by simpa using hl), ih, List.map_cons,
        List.count_cons_of_ne (by simpa using hl)]

end Track

/-- **Effects that lead from one store to another**, none of which gives
decorations up. -/
inductive Leads : Store → List Effect → Store → Prop
  /-- Nothing is changed. -/
  | refl {s : Store} : Leads s [] s
  /-- One layer is changed, and then others are. -/
  | change {s t : Store} {l : Layer} {c : Change} {es : List Effect} :
      (∀ edited, c ≠ .dropped edited) → Leads (s.change l c).1 es t →
      Leads s ((s.change l c).2 :: es) t

namespace Leads

theorem trans (h : Leads s es t) (h' : Leads t fs u) : Leads s (es ++ fs) u := by
  induction h with
  | refl => exact h'
  | change hc _ ih => exact change hc (ih h')

theorem track (h : Leads s es t) : Track s es t := by
  induction h with
  | refl => exact .refl
  | change _ _ ih => exact .touch (touches_change _ _ _) ih

/-- The screen follows the store, -/
theorem updateAll (h : Leads s es t) : Screen.updateAll s.layer es = t.layer :=
  h.track.updateAll

/-- and no generation of a layer is left out or told twice. -/
theorem generations (h : Leads s es t) (l : Layer) :
    (es.filter fun e => e.layer = l).map Effect.generation =
      List.range' (s.generation l + 1) (t.generation l - s.generation l) := by
  rw [h.track.generations l, h.track.generation l, Nat.add_sub_cancel_left]

/-- Nothing is given up on the way. -/
theorem not_dropped (h : Leads s es t) {e : Effect} (he : e ∈ es) (edited : Span) :
    e.change ≠ .dropped edited := by
  induction h with
  | refl => cases he
  | change hc _ ih =>
    rcases List.mem_cons.mp he with rfl | he
    · exact hc edited
    · exact ih he

end Leads

/-! ## The operations of the store -/

/-- Emptying layers leads to a store. -/
theorem leads_clearEach (s : Store) (ls : List Layer) :
    Leads s (s.clearEach ls).2 (s.clearEach ls).1 := by
  induction ls generalizing s with
  | nil => exact .refl
  | cons l ls ih => exact .change (fun _ h => by cases h) (ih _)

/-- Decorations that all keep their places are moved nowhere. -/
theorem moveAll_of_forall {f : Span → Option Span} (hf : ∀ span, f span = some span)
    (ds : List Decoration) : moveAll f ds = .ok ds := by
  induction ds with
  | nil => rfl
  | cons d ds ih => rw [moveAll, hf, ih]

variable {mapping : Mapping} {computedAt : Revision}

/-- **Filling layers for the text as it is gives nothing up.** -/
theorem leads_replaceEach (hm : ∀ span, mapping span computedAt = some span) (s : Store)
    (layers : List (Layer × List Decoration)) :
    Leads s (s.replaceEach layers computedAt mapping).2
      (s.replaceEach layers computedAt mapping).1 := by
  induction layers generalizing s with
  | nil => exact .refl
  | cons entry layers ih =>
    obtain ⟨l, entries⟩ := entry
    simp only [replaceEach, replaceAll, moveAll_of_forall hm]
    exact .change (fun _ h => by cases h) (ih _)

/-- Emptying layers empties each of them, and no layer is filled. -/
theorem layer_clearEach (s : Store) (ls : List Layer) (h : l ∈ ls ∨ s.layer l = []) :
    (s.clearEach ls).1.layer l = [] := by
  induction ls generalizing s with
  | nil => exact h.resolve_left List.not_mem_nil
  | cons l₀ ls ih =>
    refine ih _ ?_
    by_cases hl : l = l₀
    · subst hl
      exact Or.inr (layer_change s l .cleared)
    · rcases h with h | h
      · exact Or.inl ((List.mem_cons.mp h).resolve_left hl)
      · exact Or.inr ((layer_change_of_ne hl s .cleared).trans h)

/-- **Emptying every layer leaves nothing.** -/
theorem layer_clearAll (s : Store) (l : Layer) : s.clearAll.1.layer l = [] :=
  layer_clearEach s Layer.all (Or.inl (by cases l <;> simp [Layer.all]))

/-! ## Layers that are filled, and those that are left alone -/

theorem ext_slot (h : ∀ l, s.slot l = t.slot l) : s = t := by
  obtain ⟨loans, uses, statements, markers⟩ := s
  obtain ⟨loans', uses', statements', markers'⟩ := t
  obtain rfl : loans = loans' := h .loans
  obtain rfl : uses = uses' := h .uses
  obtain rfl : statements = statements' := h .statements
  obtain rfl : markers = markers' := h .markers
  rfl

/-- What becomes of the layer that is changed does not depend on the
others. -/
theorem slot_change_congr (h : s.slot l' = t.slot l') (l : Layer) (c : Change) :
    (s.change l c).1.slot l' = (t.change l c).1.slot l' := by
  by_cases hl : l' = l
  · subst hl
    simp only [change, slot_setSlot, h]
    rfl
  · simp only [change, slot_setSlot_of_ne hl, h]

/-- How a layer is changed to be filled does not depend on the store. -/
theorem exists_replaceAll_eq (l : Layer) (entries : List Decoration) (computedAt : Revision)
    (mapping : Mapping) :
    ∃ c, ∀ s : Store, s.replaceAll l entries computedAt mapping = s.change l c := by
  unfold replaceAll
  cases moveAll (mapping · computedAt) entries with
  | ok moved => exact ⟨.replaced moved, fun _ => rfl⟩
  | error edited => exact ⟨.dropped edited, fun _ => rfl⟩

variable {layers layers' : List (Layer × List Decoration)}

/-- A layer that is not filled is left as it is. -/
theorem slot_replaceEach_of_notMem (h : l ∉ layers.map Prod.fst) (s : Store)
    (computedAt : Revision) (mapping : Mapping) :
    (s.replaceEach layers computedAt mapping).1.slot l = s.slot l := by
  induction layers generalizing s with
  | nil => rfl
  | cons entry layers ih =>
    obtain ⟨l₀, entries⟩ := entry
    rw [List.map_cons, List.mem_cons, not_or] at h
    obtain ⟨c, hc⟩ := exists_replaceAll_eq l₀ entries computedAt mapping
    simp only [replaceEach, hc]
    rw [ih h.2]
    exact slot_setSlot_of_ne h.1 s _

theorem layer_replaceEach_of_notMem (h : l ∉ layers.map Prod.fst) (s : Store)
    (computedAt : Revision) (mapping : Mapping) :
    (s.replaceEach layers computedAt mapping).1.layer l = s.layer l :=
  congrArg Slot.decorations (slot_replaceEach_of_notMem h s computedAt mapping)

/-- A layer that is filled with decorations that keep their places shows
these, whatever it showed before. -/
theorem layer_replaceEach (hm : ∀ span, mapping span computedAt = some span)
    (hnodup : (layers.map Prod.fst).Nodup) {ds : List Decoration} (h : (l, ds) ∈ layers)
    (s : Store) : (s.replaceEach layers computedAt mapping).1.layer l = ds := by
  induction layers generalizing s with
  | nil => cases h
  | cons entry layers ih =>
    obtain ⟨l₀, entries⟩ := entry
    rw [List.map_cons, List.nodup_cons] at hnodup
    simp only [replaceEach, replaceAll, moveAll_of_forall hm]
    rcases List.mem_cons.mp h with hhead | h
    · -- it is not filled a second time
      cases hhead
      rw [layer_replaceEach_of_notMem hnodup.1, layer_change]
      rfl
    · exact ih hnodup.2 h _

/-- The layers that are told of are those that are filled. -/
theorem map_layer_replaceEach (s : Store) (layers : List (Layer × List Decoration))
    (computedAt : Revision) (mapping : Mapping) :
    (s.replaceEach layers computedAt mapping).2.map Effect.layer = layers.map Prod.fst := by
  induction layers generalizing s with
  | nil => rfl
  | cons entry layers ih =>
    obtain ⟨l₀, entries⟩ := entry
    obtain ⟨c, hc⟩ := exists_replaceAll_eq l₀ entries computedAt mapping
    simp only [replaceEach, hc, List.map_cons, ih]
    rfl

/-- They are told to show what they are filled with, if that keeps its
places. -/
theorem decorations_replaceEach (hm : ∀ span, mapping span computedAt = some span) (s : Store)
    (layers : List (Layer × List Decoration)) :
    (s.replaceEach layers computedAt mapping).2.map Effect.decorations =
      layers.map Prod.snd := by
  induction layers generalizing s with
  | nil => rfl
  | cons entry layers ih =>
    obtain ⟨l₀, entries⟩ := entry
    simp only [replaceEach, replaceAll, moveAll_of_forall hm, List.map_cons, ih]
    rfl

/-- And one that is filled depends on no other. -/
theorem slot_replaceEach_congr (h : s.slot l = t.slot l)
    (layers : List (Layer × List Decoration)) (computedAt : Revision) (mapping : Mapping) :
    (s.replaceEach layers computedAt mapping).1.slot l =
      (t.replaceEach layers computedAt mapping).1.slot l := by
  induction layers generalizing s t with
  | nil => exact h
  | cons entry layers ih =>
    obtain ⟨l₀, entries⟩ := entry
    obtain ⟨c, hc⟩ := exists_replaceAll_eq l₀ entries computedAt mapping
    simp only [replaceEach, hc]
    exact ih (slot_change_congr h l₀ c)

/-- **Different layers can be filled in any order.** -/
theorem replaceEach_comm (h : ∀ l ∈ layers.map Prod.fst, l ∉ layers'.map Prod.fst) (s : Store)
    (computedAt : Revision) (mapping : Mapping) :
    ((s.replaceEach layers computedAt mapping).1.replaceEach layers' computedAt mapping).1 =
      ((s.replaceEach layers' computedAt mapping).1.replaceEach layers computedAt mapping).1 := by
  refine ext_slot fun l => ?_
  -- at most one of the two fills the layer, and finds it as it was
  by_cases hl : l ∈ layers.map Prod.fst
  · have hl' := h l hl
    rw [slot_replaceEach_of_notMem hl']
    exact slot_replaceEach_congr (slot_replaceEach_of_notMem hl' s computedAt mapping).symm
      layers computedAt mapping
  · rw [slot_replaceEach_of_notMem hl (s.replaceEach layers' computedAt mapping).1]
    exact slot_replaceEach_congr (slot_replaceEach_of_notMem hl s computedAt mapping)
      layers' computedAt mapping

/-! ## The bodies that a layer shows something of -/

/-- To leave repetitions out leaves out no number. -/
theorem mem_eraseRepsBy_loop {x a : Nat} {as acc : List Nat} :
    x ∈ List.eraseRepsBy.loop (· == ·) a as acc ↔ x ∈ acc ∨ x = a ∨ x ∈ as := by
  induction as generalizing a acc with
  | nil => simp [List.eraseRepsBy.loop, or_comm]
  | cons b as ih =>
    rw [List.eraseRepsBy.loop]
    split
    · rename_i hsame
      obtain rfl := beq_iff_eq.mp hsame
      rw [ih, List.mem_cons]
      grind
    · rw [ih, List.mem_cons, List.mem_cons]
      grind

/-- Of numbers in order it leaves each one once. What was left is kept
from its end to its front, before the last number that was left. -/
theorem pairwise_eraseRepsBy_loop {a : Nat} {as acc : List Nat}
    (hacc : (a :: acc).Pairwise (· > ·)) (has : (a :: as).Pairwise (· ≤ ·)) :
    (List.eraseRepsBy.loop (· == ·) a as acc).Pairwise (· < ·) := by
  induction as generalizing a acc with
  | nil => exact List.pairwise_reverse.mpr hacc
  | cons b as ih =>
    rw [List.eraseRepsBy.loop]
    obtain ⟨ha, has⟩ := List.pairwise_cons.mp has
    split
    · exact ih hacc (List.pairwise_cons.mpr
        ⟨fun c hc => ha c (List.mem_cons_of_mem _ hc), (List.pairwise_cons.mp has).2⟩)
    · rename_i hne
      have hab : a < b := by
        have hle := ha b List.mem_cons_self
        have hne : a ≠ b := by simpa using hne
        omega
      refine ih (List.pairwise_cons.mpr ⟨?_, hacc⟩) has
      intro c hc
      rcases List.mem_cons.mp hc with rfl | hc
      · exact hab
      · exact Nat.lt_trans ((List.pairwise_cons.mp hacc).1 c hc) hab

/-- **The bodies are told once each and in order**, -/
theorem pairwise_units (s : Store) (l : Layer) : (s.units l).Pairwise (· < ·) := by
  have hsorted : (((s.layer l).filterMap Decoration.unit).mergeSort (· ≤ ·)).Pairwise
      fun a b => decide (a ≤ b) = true := by
    refine List.pairwise_mergeSort ?_ ?_ _
    · intro a b c hab hbc
      exact decide_eq_true (Nat.le_trans (of_decide_eq_true hab) (of_decide_eq_true hbc))
    · intro a b
      simpa using Nat.le_total a b
  simp only [decide_eq_true_eq] at hsorted
  unfold units List.eraseReps
  generalize ((s.layer l).filterMap Decoration.unit).mergeSort _ = is at hsorted ⊢
  cases is with
  | nil => exact .nil
  | cons i is => exact pairwise_eraseRepsBy_loop (List.pairwise_singleton ..) hsorted

/-- and they are those that the decorations come from. -/
theorem mem_units {i : Nat} : i ∈ s.units l ↔ ∃ d ∈ s.layer l, d.unit = some i := by
  have hsorted : i ∈ ((s.layer l).filterMap Decoration.unit).mergeSort (· ≤ ·) ↔
      ∃ d ∈ s.layer l, d.unit = some i :=
    List.mem_mergeSort.trans List.mem_filterMap
  rw [← hsorted]
  unfold units List.eraseReps
  generalize ((s.layer l).filterMap Decoration.unit).mergeSort _ = is
  cases is with
  | nil => exact Iff.rfl
  | cons j is =>
    rw [List.mem_cons]
    exact mem_eraseRepsBy_loop.trans (or_iff_right List.not_mem_nil)

end Store

end Marginalia
