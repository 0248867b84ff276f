import Marginalia.Proofs.Text.History

/-!
# Text — edits made one after the other

A document counts characters and keeps bytes. An edit that fits takes
away the characters of its span and puts others there
(`Document.Spliced`), since the bytes it works on are those of just these
characters; one that does not fit leaves the document alone. The count
of characters is kept up by adding and subtracting, which is right as
long as it was right before: it starts out right, so it is right after
any edits (`Counted.editAll`).

Every edit that is made leads to a later revision, so a document that is
back at a revision was not edited in between (`editAll_eq_or_lt`), and
its fingerprint tells its revisions apart, whichever way texts are
digested.
-/

namespace Marginalia

namespace Document

variable {d : Document} {e : Edit}

/-- The document after edits made in order; one that does not fit changes
nothing. -/
def editAll (d : Document) (edits : List Edit) : Document :=
  edits.foldl (fun d e => (d.edit e).1) d

@[simp] theorem editAll_nil (d : Document) : d.editAll [] = d := rfl

@[simp] theorem editAll_cons (d : Document) (e : Edit) (edits : List Edit) :
    d.editAll (e :: edits) = (d.edit e).1.editAll edits := rfl

theorem editAll_append (d : Document) (xs ys : List Edit) :
    d.editAll (xs ++ ys) = (d.editAll xs).editAll ys :=
  List.foldl_append

/-! ## One edit -/

theorem edit_of_apply {d' : Document} (h : d.apply e = .ok d') :
    d.edit e = (d', .ok d'.revision) := by
  rw [edit, h]

theorem edit_of_not_fits (h : ¬ e.span.fits d.length = true) :
    d.edit e = (d, .error ⟨e.span, d.length⟩) := by
  rw [edit, apply_eq, if_neg h]

/-- An edit that fits is made. -/
theorem exists_apply (h : e.span.fits d.length = true) : ∃ d', d.apply e = .ok d' := by
  rw [apply_eq, if_pos h]
  exact ⟨_, rfl⟩

/-- An edit is made, or the document stays as it is. -/
theorem edit_cases (d : Document) (e : Edit) :
    (∃ d', d.apply e = .ok d' ∧ (d.edit e).1 = d') ∨ (d.edit e).1 = d := by
  by_cases h : e.span.fits d.length = true
  · obtain ⟨d', hd'⟩ := exists_apply h
    exact Or.inl ⟨d', hd', congrArg Prod.fst (edit_of_apply hd')⟩
  · exact Or.inr (congrArg Prod.fst (edit_of_not_fits h))

theorem Counted.edit (hd : d.Counted) (e : Edit) : (d.edit e).1.Counted := by
  rcases edit_cases d e with ⟨d', hd', heq⟩ | heq <;> rw [heq]
  · exact hd.apply hd'
  · exact hd

/-- **The count of characters is right after any edits.** -/
theorem Counted.editAll (hd : d.Counted) (edits : List Edit) : (d.editAll edits).Counted := by
  induction edits generalizing d with
  | nil => exact hd
  | cons e edits ih => exact ih (hd.edit e)

/-- So is the log of edits. -/
theorem Kept.editAll (hd : d.Kept) (edits : List Edit) : (d.editAll edits).Kept := by
  induction edits generalizing d with
  | nil => exact hd
  | cons e edits ih =>
    rw [editAll_cons]
    rcases edit_cases d e with ⟨d', hd', heq⟩ | heq <;> rw [heq]
    · exact ih (hd.apply hd')
    · exact ih hd

/-- **What an edit that is made does to a document.** -/
structure Spliced (d : Document) (e : Edit) (d' : Document) : Prop where
  /-- The characters of its span are replaced, and the others are kept. -/
  text : d'.text.toList =
    d.text.toList.take e.span.start ++ e.replacement.toList ++ d.text.toList.drop e.span.stop
  /-- Their count is right. -/
  length : d'.length = d'.text.length
  revision : d'.revision.number = d.revision.number + 1
  /-- The bytes that are replaced could be cut out. -/
  cut : Text.Cut d.text (Text.byteOffset d.text e.span.start)
    (Text.byteOffset d.text e.span.stop)
  /-- No more characters were taken from the count than were in it. -/
  removed : e.span.length ≤ d.length

/-- **The span of an edit decides** whether it is made. -/
structure DecidedBySpan (d : Document) (e : Edit) : Prop where
  /-- A span in order and inside the text is replaced, and the revision is
  told that this leads to. -/
  made : e.span.start ≤ e.span.stop → e.span.stop ≤ d.text.length →
    ∃ d', d.edit e = (d', .ok d'.revision) ∧ d.Spliced e d'
  /-- With any other nothing is changed. -/
  refused : ¬ (e.span.start ≤ e.span.stop ∧ e.span.stop ≤ d.text.length) →
    d.edit e = (d, .error ⟨e.span, d.length⟩)

theorem Counted.spliced {d' : Document} (hd : d.Counted) (h : d.apply e = .ok d') :
    d.Spliced e d' := by
  obtain ⟨hfits, hmade⟩ := eq_of_apply h
  obtain ⟨horder, hinside⟩ := Span.fits_iff.mp hfits
  refine ⟨?_, hd.apply h, ?_, Text.cut_byteOffset d.text horder, ?_⟩
  · rw [hmade, String.toList_ofList]
    rfl
  · rw [revision_of_apply h]
    rfl
  · exact Nat.le_trans (Nat.sub_le _ _) hinside

/-- **Where the count is right**, it lets pass just the spans that are in
the text. -/
theorem Counted.decidedBySpan (hd : d.Counted) (e : Edit) : d.DecidedBySpan e where
  made horder hinside := by
    obtain ⟨d', hd'⟩ := exists_apply (Span.fits_iff.mpr ⟨horder, hd ▸ hinside⟩)
    exact ⟨d', edit_of_apply hd', hd.spliced hd'⟩
  refused hout := by
    rw [← hd, ← Span.fits_iff] at hout
    exact edit_of_not_fits hout

/-! ## Revisions -/

/-- **A document that is back at a revision was not edited.** -/
theorem editAll_eq_or_lt (d : Document) (edits : List Edit) :
    d.editAll edits = d ∨ d.revision.number < (d.editAll edits).revision.number := by
  induction edits generalizing d with
  | nil => exact Or.inl rfl
  | cons e edits ih =>
    rw [editAll_cons]
    rcases edit_cases d e with ⟨d', hd', heq⟩ | heq <;> rw [heq]
    · have hlater := revision_lt_of_apply hd'
      rcases ih d' with hsame | hlt
      · rw [hsame]
        exact Or.inr hlater
      · exact Or.inr (Nat.lt_trans hlater hlt)
    · exact ih d

/-- Two points of a history with one revision have one document. -/
theorem editAll_take_eq (d : Document) (edits : List Edit) {i j : Nat} (hij : i ≤ j)
    (h : (d.editAll (edits.take i)).revision = (d.editAll (edits.take j)).revision) :
    d.editAll (edits.take i) = d.editAll (edits.take j) := by
  -- the later point is the earlier one with the edits between them made
  have hsplit := List.take_append_drop i (edits.take j)
  rw [List.take_take, Nat.min_eq_left hij] at hsplit
  rw [← hsplit, editAll_append] at h ⊢
  rcases editAll_eq_or_lt (d.editAll (edits.take i)) ((edits.take j).drop i) with hsame | hlt
  · exact hsame.symm
  · rw [← h] at hlt
    exact absurd hlt (Nat.lt_irrefl _)

/-- Fingerprints agree only at one revision. -/
theorem agrees_iff_of_eq {digest : Digest} {d d' : Document}
    (h : d.revision = d'.revision → d = d') :
    (d.fingerprint digest).agrees (d'.fingerprint digest) = true ↔ d.revision = d'.revision := by
  rw [Fingerprint.agrees, decide_eq_true_iff]
  exact ⟨congrArg Fingerprint.revision, fun hsame => by rw [h hsame]⟩

/-- **After any edits the next one is exact**: it replaces the characters
of its span and nothing else, and the fingerprints of a history agree
exactly at one revision. -/
theorem edits_exact (digest : Digest) (text : String) (edits : List Edit) :
    let point := fun i => (ofText text).editAll (edits.take i)
    (∀ i, (point i).length = (point i).text.length) ∧
      (∀ i e, (point i).DecidedBySpan e) ∧
      ∀ i j, ((point i).fingerprint digest).agrees ((point j).fingerprint digest) = true ↔
        (point i).revision = (point j).revision := by
  intro point
  have hcounted : ∀ i, (point i).Counted := fun i =>
    (counted_ofText text).editAll (edits.take i)
  refine ⟨hcounted, fun i => (hcounted i).decidedBySpan, fun i j => agrees_iff_of_eq fun h => ?_⟩
  rcases Nat.le_total i j with hij | hij
  · exact editAll_take_eq _ _ hij h
  · exact (editAll_take_eq _ _ hij h.symm).symm

/-- Characters of two and three bytes make room for one of two. -/
example : ((ofText "aä€😀").edit (.replace ⟨1, 3⟩ "ß")).1.text = "aß😀" := by
  decide +kernel

end Document

end Marginalia
