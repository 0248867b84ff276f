import Marginalia.Proofs.Overlay.Placement
import Marginalia.Proofs.Text.Mapping

/-!
# Overlay — decorations keep their order

An edit moves every span that comes after it by the same amount and
leaves the ones before it in place. So two spans that it leaves alone
are in the order they were in, and apart if they were apart
(`Edit.keepsOrder_move`), and by induction on the edits they are so
after a whole history (`Document.Edited.keepsOrder`).

A layer that is filled shows all its decorations where they now lie or
none of them. Sorted decorations are therefore sorted still, and those
that do not overlap do not overlap (`Document.Edited.keeps_order`).
-/

namespace Marginalia

/-! ## Two spans -/

/-- **What is known of the order of two spans** is known of two
others. -/
structure Span.KeepsOrder (a b a' b' : Span) : Prop where
  start : a.start ≤ b.start → a'.start ≤ b'.start
  apart : a.stop ≤ b.start → a'.stop ≤ b'.start

namespace Span

variable {a b a' b' a'' b'' : Span} {n : Nat}

theorem KeepsOrder.refl (a b : Span) : KeepsOrder a b a b := ⟨id, id⟩

theorem KeepsOrder.trans (h : KeepsOrder a b a' b') (h' : KeepsOrder a' b' a'' b'') :
    KeepsOrder a b a'' b'' :=
  ⟨h'.start ∘ h.start, h'.apart ∘ h.apart⟩

/-- Spans in order do not overlap exactly if one ends before the other
starts. -/
theorem overlaps_eq_false_iff (ha : a.start ≤ a.stop) (hb : b.start ≤ b.stop) :
    a.overlaps b = false ↔ a.stop ≤ b.start ∨ b.stop ≤ a.start := by
  unfold overlaps isEmpty
  split
  · rename_i hempty
    rw [decide_eq_true_eq] at hempty
    simp only [Bool.and_eq_false_iff, decide_eq_false_iff_not]
    omega
  · rename_i hempty
    rw [decide_eq_true_eq] at hempty
    split
    · rename_i hempty'
      rw [decide_eq_true_eq] at hempty'
      simp only [Bool.and_eq_false_iff, decide_eq_false_iff_not]
      omega
    · simp only [Bool.and_eq_false_iff, decide_eq_false_iff_not]
      omega

theorem shiftOffset_le_shiftOffset {i j : Nat} (h : i ≤ j) (delta : Int) :
    shiftOffset i delta ≤ shiftOffset j delta := by
  unfold shiftOffset
  omega

/-- Two spans that are moved alike keep their order. -/
theorem keepsOrder_shift (a b : Span) (delta : Int) :
    KeepsOrder a b (a.shift delta) (b.shift delta) :=
  ⟨fun h => shiftOffset_le_shiftOffset h delta, fun h => shiftOffset_le_shiftOffset h delta⟩

end Span

/-! ## One edit -/

namespace Edit

variable {e : Edit} {a b r : Span} {n : Nat}

/-- What comes after an edit is not moved to before it. -/
theorem start_le_shiftOffset {offset : Nat} (he : e.span.start ≤ e.span.stop)
    (hafter : e.span.stop ≤ offset) (hword : e.span.start < wordBound) :
    e.span.start ≤ Span.shiftOffset offset e.lengthDelta := by
  unfold Span.shiftOffset lengthDelta Span.length
  omega

/-- **An edit keeps the order of spans that it leaves alone.** -/
theorem keepsOrder_move (ha : a.fits n = true) (he : e.span.fits n = true) (hn : n < wordBound)
    (hmap : e.map a = some (e.move a)) : Span.KeepsOrder a b (e.move a) (e.move b) := by
  obtain ⟨horder, -⟩ := Span.fits_iff.mp ha
  obtain ⟨heorder, hinside⟩ := Span.fits_iff.mp he
  unfold move
  by_cases hbefore : e.span.stop ≤ a.start <;> by_cases hbefore' : e.span.stop ≤ b.start
  · rw [if_pos hbefore, if_pos hbefore']
    exact Span.keepsOrder_shift a b e.lengthDelta
  · -- `b` would have to start before `a`
    constructor <;> intro h <;> omega
  · -- `a` ends where the edit starts, and `b` stays behind that
    rw [if_neg hbefore, if_pos hbefore']
    have hends : a.stop ≤ e.span.start := by
      rcases map_eq_some ha he hmap with ⟨hends, -⟩ | ⟨hstarts, -⟩
      · exact hends
      · exact absurd hstarts hbefore
    have hstays := start_le_shiftOffset heorder hbefore' (by omega)
    constructor <;> intro _
    · exact Nat.le_trans (Nat.le_trans horder hends) hstays
    · exact Nat.le_trans hends hstays
  · rw [if_neg hbefore, if_neg hbefore']
    exact .refl a b

end Edit

/-! ## Histories -/

namespace Document

variable {d d' : Document} {es : List Edit} {a b a' b' : Span}

theorem Held.lt_wordBound (h : d.Held) : d.length < wordBound :=
  Nat.lt_of_le_of_lt h (by decide)

/-- **Spans that are followed through a history keep their order.** -/
theorem Edited.keepsOrder (h : Edited d es d') (hd : d.Counted) (ha : a.fits d.length = true)
    (ha' : follow a es = some a') (hb' : follow b es = some b') :
    Span.KeepsOrder a b a' b' := by
  induction h generalizing a' b' with
  | refl _ =>
    cases ha'
    cases hb'
    exact .refl a b
  | edit hes he _ ih =>
    obtain ⟨r, hr, hmap⟩ := Option.bind_eq_some_iff.mp ha'
    obtain ⟨q, hq, hmap'⟩ := Option.bind_eq_some_iff.mp hb'
    obtain rfl := Edit.eq_move_of_map hmap
    obtain rfl := Edit.eq_move_of_map hmap'
    exact (ih hr hq).trans (Edit.keepsOrder_move (hes.carries hd ha hr).fits
      (eq_of_apply he).1 hes.held.lt_wordBound hmap)

variable {text : String} {old new : Document} {earlier later : List Edit}

/-- So do spans that are looked up. -/
theorem Edited.keepsOrder_map? (hold : Edited (ofText text) earlier old)
    (hnew : Edited old later new) (ha : a.fits old.length = true)
    (ha' : new.map? a old.revision = some a') (hb' : new.map? b old.revision = some b') :
    Span.KeepsOrder a b a' b' := by
  rw [hold.logs.revision, (hold.trans hnew).logs.map?_eq] at ha' hb'
  split at ha'
  · rename_i hkept
    rw [if_pos hkept] at hb'
    exact hnew.keepsOrder (hold.counted (counted_ofText text)) ha ha' hb'
  · cases ha'

/-! ## Layers -/

/-- What holds of all pairs of a list holds of those of another that is
related to it. -/
theorem pairwise_of_forall₂ {α β : Type} {R : α → β → Prop} {P : α → α → Prop}
    {Q : β → β → Prop} {xs : List α} {ys : List β}
    (hPQ : ∀ x y x' y', R x x' → R y y' → P x y → Q x' y') (h : List.Forall₂ R xs ys)
    (hxs : xs.Pairwise P) : ys.Pairwise Q := by
  rw [List.pairwise_iff_getElem] at hxs ⊢
  intro i j hi hj hij
  have hi' : i < xs.length := h.length_eq ▸ hi
  have hj' : j < xs.length := h.length_eq ▸ hj
  exact hPQ _ _ _ _ (h.get hi' hi) (h.get hj' hj) (hxs i j hi' hj' hij)

/-- A layer that is filled shows each decoration where it is looked up,
or shows nothing. -/
theorem pairwise_layer_replaceAll {P Q : Decoration → Decoration → Prop} (s : Store) (l : Layer)
    {entries : List Decoration} {since : Revision} {mapping : Mapping}
    (hPQ : ∀ x ∈ entries, ∀ y ∈ entries, ∀ a b, mapping x.span since = some a →
      mapping y.span since = some b → P x y → Q { x with span := a } { y with span := b })
    (h : entries.Pairwise P) :
    ((s.replaceAll l entries since mapping).1.layer l).Pairwise Q := by
  unfold Store.replaceAll
  split
  · rename_i moved hmoved
    rw [Store.layer_change]
    have hrelated : List.Forall₂ (fun x d => x ∈ entries ∧
        ∃ a, mapping x.span since = some a ∧ d = { x with span := a }) entries moved :=
      forall₂_of_moveAll (fun x hx a ha => ⟨hx, a, ha, rfl⟩) hmoved
    refine pairwise_of_forall₂ ?_ hrelated h
    rintro x y _ _ ⟨hx, a, ha, rfl⟩ ⟨hy, b, hb, rfl⟩ hxy
    exact hPQ x hx y hy a b ha hb hxy
  · rw [Store.layer_change]
    exact .nil

/-- **Whatever was edited, what was in order is in order and what was
apart is apart**: spans that are looked up, and the decorations of a
layer that is filled. -/
theorem Edited.keeps_order (hold : Edited (ofText text) earlier old)
    (hnew : Edited old later new) :
    (∀ a b a' b' : Span, a.fits old.length = true → b.fits old.length = true →
      new.map? a old.revision = some a' → new.map? b old.revision = some b' →
      (a.start ≤ b.start → a'.start ≤ b'.start) ∧ (a.stop ≤ b.start → a'.stop ≤ b'.start)) ∧
    ∀ (s : Store) (l : Layer) (entries : List Decoration),
      (∀ entry ∈ entries, entry.span.fits old.length = true) →
      (entries.Pairwise (fun x y => x.span.start ≤ y.span.start) →
        ((s.replaceAll l entries old.revision new.map?).1.layer l).Pairwise
          fun x y => x.span.start ≤ y.span.start) ∧
      (entries.Pairwise (fun x y => x.span.overlaps y.span = false) →
        ((s.replaceAll l entries old.revision new.map?).1.layer l).Pairwise
          fun x y => x.span.overlaps y.span = false) := by
  refine ⟨fun a b a' b' ha _ ha' hb' => ?_, fun s l entries hentries => ⟨?_, ?_⟩⟩
  · have hkeeps := hold.keepsOrder_map? hnew ha ha' hb'
    exact ⟨hkeeps.start, hkeeps.apart⟩
  · refine pairwise_layer_replaceAll s l fun x hx y hy a b ha hb => ?_
    exact (hold.keepsOrder_map? hnew (hentries x hx) ha hb).start
  · refine pairwise_layer_replaceAll s l fun x hx y hy a b ha hb hapart => ?_
    have hplaced : ∀ z ∈ entries, ∀ r, new.map? z.span old.revision = some r →
        z.span.start ≤ z.span.stop ∧ r.start ≤ r.stop := by
      intro z hz r hr
      have hcarries := hold.carries_of_map? hnew (hentries z hz) hr
      exact ⟨(Span.fits_iff.mp (hentries z hz)).1, (Span.fits_iff.mp hcarries.fits).1⟩
    obtain ⟨hxorder, haorder⟩ := hplaced x hx a ha
    obtain ⟨hyorder, hborder⟩ := hplaced y hy b hb
    rw [Span.overlaps_eq_false_iff hxorder hyorder] at hapart
    rw [Span.overlaps_eq_false_iff haorder hborder]
    exact hapart.imp (hold.keepsOrder_map? hnew (hentries x hx) ha hb).apart
      (hold.keepsOrder_map? hnew (hentries y hy) hb ha).apart

/-- Two calls are found one behind the other, the gap between them wider
by the word that was put there, and so are their markers. -/
theorem keeps_order_of_calls :
    ∃ old new : Document, Edited (ofText "f(x); g(y)") [.delete ⟨0, 1⟩] old ∧
      Edited old [.insert 5 "mut "] new ∧
      (new.map? ⟨0, 3⟩ old.revision = some ⟨0, 3⟩ ∧
        new.map? ⟨5, 9⟩ old.revision = some ⟨9, 13⟩ ∧ (3 ≤ 5 → 3 ≤ 9)) ∧
      ((Store.initial.replaceAll .markers [⟨⟨0, 3⟩, none, .marker 0⟩, ⟨⟨5, 9⟩, none, .marker 1⟩]
          old.revision new.map?).1.layer .markers).Pairwise
        fun x y => x.span.start ≤ y.span.start := by
  have hold : Edited (ofText "f(x); g(y)") [.delete ⟨0, 1⟩]
      ⟨"(x); g(y)", 9, ⟨1⟩, [(⟨1⟩, .delete ⟨0, 1⟩)]⟩ :=
    .edit (.refl (by decide +kernel)) (by decide +kernel) (by decide)
  have hnew : Edited _ [.insert 5 "mut "]
      ⟨"(x); mut g(y)", 13, ⟨2⟩, [(⟨2⟩, .insert 5 "mut "), (⟨1⟩, .delete ⟨0, 1⟩)]⟩ :=
    .edit (.refl hold.held) (by decide +kernel) (by decide)
  obtain ⟨hspans, hlayers⟩ := hold.keeps_order hnew
  refine ⟨_, _, hold, hnew, ⟨?first, ?second, ?_⟩, ?_⟩
  case first => decide +kernel
  case second => decide +kernel
  · exact (hspans ⟨0, 3⟩ ⟨5, 9⟩ ⟨0, 3⟩ ⟨9, 13⟩ (by decide) (by decide) (by decide +kernel)
      (by decide +kernel)).2
  · exact (hlayers _ _ _ (by decide)).1 (by decide)

end Document

end Marginalia
