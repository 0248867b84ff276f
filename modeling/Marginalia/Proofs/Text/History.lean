import Marginalia.Proofs.Text.Document

/-!
# Text — spans followed through a history

An edit that leaves a span alone lies before it or after it
(`Edit.map_eq_some`): the span moves with its text in the one case and
stays in the other. So it covers what it covered (`Carries.of_apply`),
and by induction on the edits it does so through a whole history
(`Edited.carries`).

The log of a document is its history, each edit under the number of the
revision that it led to, cut off after the last that are kept
(`Logs`). What is looked up in it is therefore the span followed through
exactly the edits that came later, if all of them are kept
(`Logs.map?_eq`).
-/

namespace Marginalia

@[simp] theorem Span.fits_iff {s : Span} {n : Nat} :
    s.fits n = true ↔ s.start ≤ s.stop ∧ s.stop ≤ n := by
  simp [Span.fits]

@[simp] theorem Revision.mk_lt_mk {m n : Nat} : (⟨m⟩ : Revision) < ⟨n⟩ ↔ m < n := Iff.rfl

@[simp] theorem Revision.next_mk (n : Nat) : (⟨n⟩ : Revision).next = ⟨n + 1⟩ := rfl

/-! ## One edit -/

namespace Edit

variable {e : Edit} {span r : Span} {text : List Char} {n : Nat}

/-- **An edit that leaves a span alone lies on one side of it.** -/
theorem map_eq_some (hspan : span.fits n = true) (he : e.span.fits n = true)
    (h : e.map span = some r) :
    (span.stop ≤ e.span.start ∧ r = span) ∨
      (e.span.stop ≤ span.start ∧ r = span.shift e.lengthDelta) := by
  obtain ⟨hs, -⟩ := Span.fits_iff.mp hspan
  obtain ⟨hes, -⟩ := Span.fits_iff.mp he
  unfold map at h
  split at h
  · cases h
  · rename_i hoverlap
    split at h
    · rename_i hbefore
      exact Or.inr ⟨hbefore, (Option.some.inj h).symm⟩
    · rename_i hbefore
      refine Or.inl ⟨?_, (Option.some.inj h).symm⟩
      -- an empty span is only touched from both sides, so the cases differ
      unfold Span.overlaps Span.isEmpty at hoverlap
      split at hoverlap
      · simp only [Bool.and_eq_true, decide_eq_true_eq] at hoverlap
        simp only [decide_eq_true_eq] at *
        omega
      · split at hoverlap
        · simp only [Bool.and_eq_true, decide_eq_true_eq] at *
          omega
        · simp only [Bool.and_eq_true, decide_eq_true_eq] at *
          omega

@[simp] theorem length_splice (h : e.span.fits text.length = true) :
    (e.splice text).length = text.length - e.span.length + e.replacement.length := by
  obtain ⟨hs, hn⟩ := Span.fits_iff.mp h
  simp only [splice, List.length_append, List.length_take, List.length_drop,
    String.length_toList, Span.length]
  omega

/-- What comes before an edit stays where it is. -/
theorem extract_splice_before {start stop : Nat} (h : e.span.fits text.length = true)
    (hstop : stop ≤ e.span.start) :
    (e.splice text).extract start stop = text.extract start stop := by
  obtain ⟨hs, hn⟩ := Span.fits_iff.mp h
  have hfront : stop ≤ (text.take e.span.start).length := by
    rw [List.length_take]
    omega
  rw [List.extract, List.extract, ← List.drop_take, ← List.drop_take, splice, List.append_assoc,
    List.take_append_of_le_length hfront, List.take_take, Nat.min_eq_left hstop]

/-- What comes after an edit is found as much further on as the text has
grown. -/
theorem extract_splice_after {start stop : Nat} (h : e.span.fits text.length = true)
    (hstart : e.span.stop ≤ start) (hstop : start ≤ stop) :
    (e.splice text).extract (start - e.span.length + e.replacement.length)
      (stop - e.span.length + e.replacement.length) = text.extract start stop := by
  obtain ⟨hs, hn⟩ := Span.fits_iff.mp h
  have hfront : (text.take e.span.start ++ e.replacement.toList).length =
      e.span.start + e.replacement.length := by
    rw [List.length_append, List.length_take, String.length_toList]
    omega
  have hskip : start - e.span.length + e.replacement.length =
      (text.take e.span.start ++ e.replacement.toList).length + (start - e.span.stop) := by
    rw [hfront, Span.length]
    omega
  have hcount : stop - e.span.length + e.replacement.length -
      (start - e.span.length + e.replacement.length) = stop - start := by
    rw [Span.length]
    omega
  rw [List.extract, List.extract, hcount, hskip, splice, List.drop_length_add_append,
    List.drop_drop, Nat.add_sub_cancel' hstart]

/-- Within what memory holds, a span that comes after an edit is moved by
just as much as the text has grown. -/
theorem shift_lengthDelta (hs : e.span.start ≤ e.span.stop) (hspan : span.start ≤ span.stop)
    (hbefore : e.span.stop ≤ span.start) (hold : span.stop ≤ largestCount)
    (hnew : span.stop - e.span.length + e.replacement.length ≤ largestCount) :
    span.shift e.lengthDelta =
      ⟨span.start - e.span.length + e.replacement.length,
        span.stop - e.span.length + e.replacement.length⟩ := by
  have hword : largestCount < wordBound := by decide
  unfold Span.length at *
  have hmoved : ∀ offset, span.start ≤ offset → offset ≤ span.stop →
      Span.shiftOffset offset e.lengthDelta =
        offset - (e.span.stop - e.span.start) + e.replacement.length := by
    intro offset hlow hhigh
    rw [Span.shiftOffset, lengthDelta, Span.length, Nat.min_eq_left (by omega),
      Nat.min_eq_left (by omega)]
    omega
  rw [Span.shift, hmoved span.start (Nat.le_refl _) hspan,
    hmoved span.stop hspan (Nat.le_refl _)]

end Edit

/-! ## The text that a span covers -/

namespace Document

/-- The characters that a span covers. -/
def textAt (d : Document) (span : Span) : List Char :=
  d.text.toList.extract span.start span.stop

/-- The count of a document is that of its characters. -/
def Counted (d : Document) : Prop := d.length = d.text.length

/-- The document is one that memory holds: the length of a text is a
signed word. -/
def Held (d : Document) : Prop := d.length ≤ Edit.largestCount

instance (d : Document) : Decidable d.Held :=
  inferInstanceAs (Decidable (d.length ≤ Edit.largestCount))

/-- **A span has moved with its text.** -/
structure Carries (d : Document) (span : Span) (d' : Document) (r : Span) : Prop where
  fits : r.fits d'.length = true
  length : r.length = span.length
  text : d'.textAt r = d.textAt span

variable {d d' d'' : Document} {span r r' : Span} {e : Edit} {es : List Edit}

theorem Carries.refl (h : span.fits d.length = true) : Carries d span d span := ⟨h, rfl, rfl⟩

theorem Carries.trans (h : Carries d span d' r) (h' : Carries d' r d'' r') :
    Carries d span d'' r' :=
  ⟨h'.fits, h'.length.trans h.length, h'.text.trans h.text⟩

/-- What an edit makes of the text of a document. -/
theorem textAt_of_apply (he : d.apply e = .ok d') (span : Span) :
    d'.textAt span = (e.splice d.text.toList).extract span.start span.stop := by
  obtain ⟨-, rfl⟩ := eq_of_apply he
  rw [textAt, String.toList_ofList]

/-- And of its length. -/
theorem length_of_apply (he : d.apply e = .ok d') :
    d'.length = d.length - e.span.length + e.replacement.length := by
  obtain ⟨-, rfl⟩ := eq_of_apply he
  rfl

theorem counted_ofText (text : String) : (ofText text).Counted := rfl

/-- **An edit keeps the count.** -/
theorem Counted.apply (hd : d.Counted) (he : d.apply e = .ok d') : d'.Counted := by
  obtain ⟨hfits, rfl⟩ := eq_of_apply he
  rw [hd, ← String.length_toList] at hfits
  rw [Counted, String.length_ofList, Edit.length_splice hfits, String.length_toList, hd]

/-- **An edit that leaves a span alone keeps what it covers.** -/
theorem Carries.of_apply (hd : d.Counted) (hheld : d.Held) (he : d.apply e = .ok d')
    (hheld' : d'.Held) (hspan : span.fits d.length = true) (h : e.map span = some r) :
    Carries d span d' r := by
  have hfits := (eq_of_apply he).1
  have hlist : e.span.fits d.text.toList.length = true := by
    rwa [String.length_toList, ← hd]
  obtain ⟨hs, hn⟩ := Span.fits_iff.mp hfits
  obtain ⟨horder, hend⟩ := Span.fits_iff.mp hspan
  have hgrown := length_of_apply he
  have hremoved : e.span.length = e.span.stop - e.span.start := rfl
  rcases Edit.map_eq_some hspan hfits h with ⟨hside, rfl⟩ | ⟨hside, rfl⟩
  · refine ⟨Span.fits_iff.mpr ⟨horder, by omega⟩, rfl, ?_⟩
    rw [textAt_of_apply he]
    exact Edit.extract_splice_before hlist hside
  · unfold Held at hheld hheld'
    rw [Edit.shift_lengthDelta hs horder hside (by omega) (by omega)]
    refine ⟨Span.fits_iff.mpr ⟨?_, ?_⟩, ?_, ?_⟩
    · simp only
      omega
    · simp only
      omega
    · simp only [Span.length]
      omega
    · rw [textAt_of_apply he]
      exact Edit.extract_splice_after hlist hside horder

/-! ## Histories -/

/-- **Edits that lead from one document to another**, the latest of them
first. Every document on the way is one that memory holds. -/
inductive Edited : Document → List Edit → Document → Prop
  /-- No edit is made. -/
  | refl {d : Document} : d.Held → Edited d [] d
  /-- An edit is made after the others, and it fits. -/
  | edit {d d' d'' : Document} {e : Edit} {es : List Edit} :
      Edited d es d' → d'.apply e = .ok d'' → d''.Held → Edited d (e :: es) d''

namespace Edited

theorem held (h : Edited d es d') : d'.Held := by
  cases h with
  | refl hd => exact hd
  | edit _ _ hd => exact hd

theorem counted (h : Edited d es d') (hd : d.Counted) : d'.Counted := by
  induction h with
  | refl _ => exact hd
  | edit _ he _ ih => exact ih.apply he

theorem trans {fs : List Edit} (h : Edited d es d') (h' : Edited d' fs d'') :
    Edited d (fs ++ es) d'' := by
  induction h' with
  | refl _ => exact h
  | edit _ he hd ih => exact .edit ih he hd

/-- **A span that is followed through a history keeps what it covers.** -/
theorem carries (h : Edited d es d') (hd : d.Counted) (hspan : span.fits d.length = true)
    (hr : follow span es = some r) : Carries d span d' r := by
  induction h generalizing r with
  | refl _ =>
    cases hr
    exact .refl hspan
  | edit hes he hheld ih =>
    obtain ⟨r', hr', hmap⟩ := Option.bind_eq_some_iff.mp hr
    have hcarried := ih hr'
    exact hcarried.trans (.of_apply (hes.counted hd) hes.held he hheld hcarried.fits hmap)

end Edited

/-! ## The log -/

/-- Edits of a document, the latest first, each with the revision that it
led to. -/
def stamped : List Edit → List (Revision × Edit)
  | [] => []
  | e :: es => (⟨es.length + 1⟩, e) :: stamped es

@[simp] theorem length_stamped (es : List Edit) : (stamped es).length = es.length := by
  induction es with
  | nil => rfl
  | cons e es ih => simp [stamped, ih]

theorem getElem?_stamped (es : List Edit) (i : Nat) :
    (stamped es)[i]? = es[i]?.map fun e => (⟨es.length - i⟩, e) := by
  induction es generalizing i with
  | nil => rfl
  | cons e es ih =>
    cases i with
    | zero => rfl
    | succ i => simp [stamped, ih]

/-- **The log is the history**, as far as it is kept, and the revision
counts it. -/
structure Logs (d : Document) (es : List Edit) : Prop where
  revision : d.revision = ⟨es.length⟩
  log : d.log = (stamped es).take memory

namespace Logs

theorem ofText (text : String) : (ofText text).Logs [] := ⟨rfl, rfl⟩

/-- An edit is entered in the log, and the oldest may be cut off. -/
theorem apply (h : d.Logs es) (he : d.apply e = .ok d') : d'.Logs (e :: es) := by
  obtain ⟨hrevision, hlog⟩ := h
  obtain ⟨-, rfl⟩ := eq_of_apply he
  refine ⟨by rw [hrevision]; rfl, ?_⟩
  -- what was cut off before is cut off again
  have hcut : (stamped es).take (memory - 1) = d.log.take (memory - 1) := by
    rw [hlog, List.take_take, Nat.min_eq_left (Nat.sub_le _ _)]
  rw [hrevision]
  exact congrArg (_ :: ·) hcut.symm

/-- Whether the edit after a revision is kept is a matter of counting. -/
theorem remembers (h : d.Logs es) {k : Nat} (hk : k < es.length) :
    d.remembers ⟨k⟩ = decide (es.length - k ≤ memory) := by
  have hmemory : 0 < memory := by decide
  have hlast : d.log.getLast? = (stamped es)[min memory es.length - 1]? := by
    rw [h.log, List.getLast?_eq_getElem?, List.length_take, length_stamped,
      List.getElem?_take_of_lt (by omega)]
  rw [getElem?_stamped, List.getElem?_eq_getElem (by omega)] at hlast
  simp only [Document.remembers, hlast, Option.map_some]
  rw [← decide_not, decide_eq_decide, Revision.next_mk, Revision.mk_lt_mk]
  omega

end Logs

theorem Edited.logs {text : String} (h : Edited (ofText text) es d) : d.Logs es := by
  induction h with
  | refl _ => exact .ofText text
  | edit _ he _ ih => exact ih.apply he

/-- The edits of the log that came after a revision. -/
theorem filter_stamped (earlier later : List Edit) (n : Nat) :
    (((stamped (later ++ earlier)).take n).filter fun x => decide (⟨earlier.length⟩ < x.1)).map
      Prod.snd = later.take n := by
  induction later generalizing n with
  | nil =>
    have hnone : ∀ x ∈ (stamped earlier).take n, ¬ (⟨earlier.length⟩ : Revision) < x.1 := by
      intro x hx
      obtain ⟨i, hi⟩ := List.mem_iff_getElem?.mp (List.mem_of_mem_take hx)
      rw [getElem?_stamped] at hi
      obtain ⟨e, -, rfl⟩ := Option.map_eq_some_iff.mp hi
      exact Nat.not_lt.mpr (Nat.sub_le _ _)
    have hfilter := List.filter_eq_nil_iff.mpr fun x hx hlt =>
      hnone x hx (of_decide_eq_true hlt)
    rw [List.nil_append, hfilter, List.take_nil, List.map_nil]
  | cons e later ih =>
    cases n with
    | zero => rfl
    | succ n =>
      have hlater : (⟨earlier.length⟩ : Revision) < ⟨(later ++ earlier).length + 1⟩ := by
        rw [Revision.mk_lt_mk, List.length_append]
        omega
      rw [List.cons_append, stamped, List.take_succ_cons, List.filter_cons,
        if_pos (decide_eq_true hlater), List.map_cons, ih, List.take_succ_cons]

/-- **What is looked up in the log** is followed through exactly the later
edits, if all of them are kept. -/
theorem Logs.map?_eq {earlier later : List Edit} (h : d.Logs (later ++ earlier)) (span : Span) :
    d.map? span ⟨earlier.length⟩ =
      if later.length ≤ memory then follow span later else none := by
  have hcount : (later ++ earlier).length = later.length + earlier.length := List.length_append
  have hpast : ¬ d.revision < ⟨earlier.length⟩ := by
    rw [h.revision, Revision.mk_lt_mk]
    omega
  have hforget : (decide ((⟨earlier.length⟩ : Revision) < d.revision) &&
      !d.remembers ⟨earlier.length⟩) = decide (memory < later.length) := by
    rcases Nat.eq_zero_or_pos later.length with hnone | hsome
    · have hnow : ¬ (⟨earlier.length⟩ : Revision) < d.revision := by
        rw [h.revision, Revision.mk_lt_mk]
        omega
      simp [hnow, hnone]
    · have hsince : (⟨earlier.length⟩ : Revision) < d.revision := by
        rw [h.revision, Revision.mk_lt_mk]
        omega
      rw [h.remembers (by omega), hcount, Nat.add_sub_cancel, decide_eq_true hsince, Bool.true_and,
        ← decide_not, decide_eq_decide, Nat.not_le]
  rw [map?, if_neg hpast, hforget, h.log, filter_stamped]
  by_cases hkept : later.length ≤ memory
  · rw [if_pos hkept, if_neg (by simpa using hkept), List.take_of_length_le hkept]
  · rw [if_neg hkept, if_pos (by simpa using hkept)]

end Document

end Marginalia
