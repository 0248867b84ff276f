import Marginalia.Proofs.Text.History
import Mathlib.Data.List.Basic

/-!
# Text — when a span can be followed

A span is followed through the edits after its revision, each of which
puts it where its text now is (`Edit.move`). It is lost in two ways
only: one of these edits touches it where it then lies (`Touched`), or
they are more than are kept. Otherwise it is found, just where the edits
have put it (`Logs.map?_drop`, `follow_eq_some`).

Following is a fold, so one may stop on the way and go on from there
(`follow_append`).
-/

namespace Marginalia

/-- Where an edit puts a span that it does not touch. -/
def Edit.move (e : Edit) (span : Span) : Span :=
  if e.span.stop ≤ span.start then span.shift e.lengthDelta else span

theorem Edit.map_eq (e : Edit) (span : Span) :
    e.map span = if span.overlaps e.span then none else some (e.move span) := by
  unfold map move
  split
  · rfl
  · split <;> rfl

theorem Edit.eq_move_of_map {e : Edit} {span r : Span} (h : e.map span = some r) :
    r = e.move span := by
  rw [map_eq] at h
  split at h
  · cases h
  · exact (Option.some.inj h).symm

/-- Where edits put a span, the earliest of them first. -/
def Span.through (span : Span) (edits : List Edit) : Span :=
  edits.foldl (fun span e => e.move span) span

/-- One of the edits, the earliest first, touches the span where those
before have put it. -/
def Span.Touched (span : Span) (edits : List Edit) : Prop :=
  ∃ i e, edits[i]? = some e ∧ (span.through (edits.take i)).overlaps e.span = true

namespace Span

variable {span : Span} {e : Edit} {edits : List Edit}

@[simp] theorem through_cons : span.through (e :: edits) = (e.move span).through edits := rfl

@[simp] theorem not_touched_nil : ¬ span.Touched [] := by
  rintro ⟨i, e, he, -⟩
  cases he

@[simp] theorem touched_cons :
    span.Touched (e :: edits) ↔
      span.overlaps e.span = true ∨ (e.move span).Touched edits := by
  constructor
  · rintro ⟨i, e', he, htouch⟩
    cases i with
    | zero =>
      cases he
      exact Or.inl htouch
    | succ i => exact Or.inr ⟨i, e', he, htouch⟩
  · rintro (htouch | ⟨i, e', he, htouch⟩)
    · exact ⟨0, e, rfl, htouch⟩
    · exact ⟨i + 1, e', he, htouch⟩

end Span

namespace Document

variable {d d' : Document} {span : Span} {e : Edit} {es edits : List Edit}

/-! ## Following -/

/-- To follow a span through edits, one may stop on the way. -/
theorem follow_append (span : Span) (later earlier : List Edit) :
    follow span (later ++ earlier) = (follow span earlier).bind fun r => follow r later := by
  induction later with
  | nil => simp [follow]
  | cons e later ih => rw [List.cons_append, follow, ih, Option.bind_assoc]; rfl

theorem follow_reverse_cons (span : Span) (e : Edit) (edits : List Edit) :
    follow span (e :: edits).reverse = (e.map span).bind fun r => follow r edits.reverse := by
  rw [List.reverse_cons, follow_append]
  rfl

/-- **A span is lost exactly if it is touched.** -/
theorem follow_eq_none_iff : follow span edits.reverse = none ↔ span.Touched edits := by
  induction edits generalizing span with
  | nil => simp [follow]
  | cons e edits ih =>
    rw [follow_reverse_cons, Edit.map_eq, Span.touched_cons]
    split
    · simp [*]
    · simp [*]

/-- **And else it is where the edits have put it.** -/
theorem follow_eq_some {r : Span} (h : follow span edits.reverse = some r) :
    r = span.through edits := by
  induction edits generalizing span with
  | nil => exact (Option.some.inj h).symm
  | cons e edits ih =>
    rw [follow_reverse_cons] at h
    obtain ⟨moved, hmoved, h⟩ := Option.bind_eq_some_iff.mp h
    obtain rfl := Edit.eq_move_of_map hmoved
    exact ih h

/-! ## Looking up -/

/-- A document that edits have led to, the earliest first, logs them. -/
theorem Logs.foldlM (h : d.Logs es) (hd' : edits.foldlM Document.apply d = .ok d') :
    d'.Logs (edits.reverse ++ es) := by
  induction edits generalizing d es with
  | nil =>
    cases hd'
    exact h
  | cons e edits ih =>
    rw [List.foldlM_cons] at hd'
    cases he : d.apply e with
    | error refused =>
      rw [he] at hd'
      cases hd'
    | ok edited =>
      rw [he] at hd'
      rw [List.reverse_cons, List.append_assoc]
      exact ih (h.apply he) hd'

theorem logs_of_foldlM {text : String} (h : edits.foldlM apply (ofText text) = .ok d) :
    d.Logs edits.reverse := by
  have hlogs := (Logs.ofText text).foldlM h
  rwa [List.append_nil] at hlogs

/-- No span is of a revision to come. -/
theorem Logs.map?_of_lt (h : d.Logs edits.reverse) {k : Nat} (hk : edits.length < k)
    (span : Span) : d.map? span ⟨k⟩ = none := by
  rw [map?, if_pos]
  rw [h.revision, Revision.mk_lt_mk, List.length_reverse]
  exact hk

/-- Of an earlier one it is followed through the edits since. -/
theorem Logs.map?_drop (h : d.Logs edits.reverse) {k : Nat} (hk : k ≤ edits.length)
    (span : Span) :
    d.map? span ⟨k⟩ =
      if edits.length - k ≤ memory then follow span (edits.drop k).reverse else none := by
  -- the log has the latest edit first, so those since the revision lead it
  have hsplit : edits.reverse = (edits.drop k).reverse ++ (edits.take k).reverse := by
    rw [← List.reverse_append, List.take_append_drop]
  have hcount : (edits.take k).reverse.length = k := by
    rw [List.length_reverse, List.length_take, Nat.min_eq_left hk]
  rw [hsplit] at h
  have hmap := h.map?_eq span
  rwa [hcount, List.length_reverse, List.length_drop] at hmap

theorem Logs.map?_eq_none_iff (h : d.Logs edits.reverse) (k : Nat) :
    d.map? span ⟨k⟩ = none ↔
      edits.length < k ∨ memory < edits.length - k ∨ span.Touched (edits.drop k) := by
  rcases Nat.lt_or_ge edits.length k with hk | hk
  · simp [h.map?_of_lt hk, hk]
  · rw [h.map?_drop hk]
    split
    · rename_i hkept
      rw [follow_eq_none_iff]
      have hpast := Nat.not_lt.mpr hk
      have hmemory := Nat.not_lt.mpr hkept
      simp [hpast, hmemory]
    · rename_i hkept
      simp [Nat.lt_of_not_le hkept]

theorem Logs.map?_eq_some (h : d.Logs edits.reverse) {k : Nat} {r : Span}
    (hr : d.map? span ⟨k⟩ = some r) : r = span.through (edits.drop k) := by
  rcases Nat.lt_or_ge edits.length k with hk | hk
  · rw [h.map?_of_lt hk] at hr
    cases hr
  · rw [h.map?_drop hk] at hr
    split at hr
    · exact follow_eq_some hr
    · cases hr

/-- **To look a span up one may stop at a revision on the way**, if what
is looked up is kept at all. -/
theorem map?_bind {mid : Document} {k m : Nat}
    (hmid : mid.Logs (edits.take m).reverse) (h : d.Logs edits.reverse) (hkm : k ≤ m)
    (hm : m ≤ edits.length) (hk : edits.length - k ≤ memory) (span : Span) :
    d.map? span ⟨k⟩ = (mid.map? span ⟨k⟩).bind fun r => d.map? r ⟨m⟩ := by
  have hlength : (edits.take m).length = m := by
    rw [List.length_take, Nat.min_eq_left hm]
  have hsplit : edits.drop k = (edits.take m).drop k ++ edits.drop m := by
    rw [← List.drop_append_of_le_length (by omega), List.take_append_drop]
  -- both parts of the way are kept, since the whole of it is
  have hlater : ∀ r, d.map? r ⟨m⟩ = follow r (edits.drop m).reverse := by
    intro r
    rw [h.map?_drop hm, if_pos (by omega)]
  have hearlier : mid.map? span ⟨k⟩ = follow span ((edits.take m).drop k).reverse := by
    rw [hmid.map?_drop (by omega), if_pos (by omega)]
  rw [h.map?_drop (by omega), if_pos hk, hsplit, List.reverse_append, follow_append, hearlier]
  simp only [hlater]

/-- **What is found of a span, and when.** Nothing, if its revision is
still to come or more than 1024 edits back, or if an edit since touches
it where it then lies; otherwise it is where the edits since have put
it. So the way there can be taken in two steps. -/
theorem map?_exact {text : String} (h : edits.foldlM apply (ofText text) = .ok d) :
    (∀ span k,
      (d.map? span ⟨k⟩ = none ↔
        edits.length < k ∨ 1024 < edits.length - k ∨ span.Touched (edits.drop k)) ∧
      ∀ r, d.map? span ⟨k⟩ = some r → r = span.through (edits.drop k)) ∧
    ∀ k m, k ≤ m → m ≤ edits.length → edits.length - k ≤ 1024 →
      ∃ mid, (edits.take m).foldlM apply (ofText text) = .ok mid ∧ mid.revision = ⟨m⟩ ∧
        ∀ span, d.map? span ⟨k⟩ = (mid.map? span ⟨k⟩).bind fun r => d.map? r ⟨m⟩ := by
  have hlogs := logs_of_foldlM h
  refine ⟨fun span k => ⟨hlogs.map?_eq_none_iff k, fun r => hlogs.map?_eq_some⟩, ?_⟩
  intro k m hkm hm hk
  rw [← List.take_append_drop m edits, List.foldlM_append] at h
  cases hmid : (edits.take m).foldlM apply (ofText text) with
  | error refused =>
    rw [hmid] at h
    cases h
  | ok mid =>
    have hmidlogs := logs_of_foldlM hmid
    refine ⟨mid, rfl, ?_, map?_bind hmidlogs hlogs hkm hm hk⟩
    rw [hmidlogs.revision, List.length_reverse, List.length_take, Nat.min_eq_left hm]

/-- Of two calls the one whose name is cut away is lost, and the other is
found behind the word that was put in front and before the gap. -/
theorem map?_exact_of_calls :
    ∃ d, [.insert 0 "let ", .delete ⟨4, 6⟩].foldlM apply (ofText "f(x); g(y)") = .ok d ∧
      (Span.Touched ⟨4, 8⟩ [.delete ⟨4, 6⟩] ∧ d.map? ⟨4, 8⟩ ⟨1⟩ = none) ∧
      (d.map? ⟨6, 10⟩ ⟨0⟩ = some ⟨8, 12⟩ ∧
        ⟨8, 12⟩ = Span.through ⟨6, 10⟩ [.insert 0 "let ", .delete ⟨4, 6⟩]) ∧
      ∃ mid : Document, mid.revision = ⟨1⟩ ∧
        d.map? ⟨6, 10⟩ ⟨0⟩ = (mid.map? ⟨6, 10⟩ ⟨0⟩).bind fun r => d.map? r ⟨1⟩ := by
  obtain ⟨d, hmade, hmoved⟩ : ∃ d,
      [.insert 0 "let ", .delete ⟨4, 6⟩].foldlM apply (ofText "f(x); g(y)") = .ok d ∧
        d.map? ⟨6, 10⟩ ⟨0⟩ = some ⟨8, 12⟩ :=
    ⟨⟨"let x); g(y)", 12, ⟨2⟩, [(⟨2⟩, .delete ⟨4, 6⟩), (⟨1⟩, .insert 0 "let ")]⟩,
      by decide +kernel, by decide +kernel⟩
  obtain ⟨hfound, hsteps⟩ := map?_exact hmade
  have htouched : Span.Touched ⟨4, 8⟩ [.delete ⟨4, 6⟩] := ⟨0, _, rfl, by decide⟩
  obtain ⟨mid, -, hmid, hbind⟩ := hsteps 0 1 (by decide) (by decide) (by decide)
  exact ⟨d, hmade, ⟨htouched, (hfound _ 1).1.mpr (Or.inr (Or.inr htouched))⟩,
    ⟨hmoved, (hfound _ 0).2 _ hmoved⟩, mid, hmid, hbind _⟩

end Document

end Marginalia
