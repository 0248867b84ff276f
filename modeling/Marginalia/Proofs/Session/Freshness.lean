import Marginalia.Proofs.Session.Course
import Marginalia.Proofs.Overlay.Store
import Mathlib.Data.List.Induction

/-!
# Session — nothing outdated is shown

An answer may come late, and the session may hear late of an edit, or
never. What is shown is still of the text that is there: two guards
watch over it, and neither is enough alone. The epoch tells of every
change the session heard of, the fingerprint of every edit, also of one
that was undone since: a revision never comes back. So a flight that
passes both was sent for the text that is there
(`Meets.document_of_fits`).

What a change takes away stays away until a render that was started
after it is applied (`Desk.blank_since_change`): whatever was in the air
at the change has an epoch that is over.
-/

namespace Marginalia

/-- A moment that is seen: something the session shows is other than
before, or the widget is called. -/
def Moment.Shows (m : Moment) : Prop :=
  m.after.session.store ≠ m.before.session.store ∨
    m.after.session.player ≠ m.before.session.player ∨
    m.after.session.ending ≠ m.before.session.ending ∨
    m.after.session.hidden ≠ m.before.session.hidden ∨
    ∃ n ∈ m.notices, n.reachesWidget = true

namespace Session

/-- **Nothing is shown**: every layer is empty, there is no execution,
and nothing is hidden. -/
structure Blank (s : Session) : Prop where
  layer : ∀ l, s.store.layer l = []
  player : s.player = .empty
  ending : s.ending = none
  hidden : s.hidden = []

/-- A change leaves nothing. -/
theorem blank_documentChanged (s : Session) (d : Document) : (s.documentChanged d).1.Blank :=
  ⟨s.store.layer_clearAll, rfl, rfl, rfl⟩

variable {s s' : Session}

theorem Blank.keeps (h : s.Blank) (hs : Keeps s s') : s'.Blank where
  layer := hs.store ▸ h.layer
  player := hs.player.trans h.player
  ending := hs.ending.trans h.ending
  hidden := hs.hidden.trans h.hidden

/-- Where there is no execution, there is nothing to move to. -/
theorem Blank.seek (h : s.Blank) (position : Nat) :
    Blank { s with player := s.player.seek position } where
  layer := h.layer
  player := by
    have hnowhere : ¬ position < Player.empty.size := Nat.not_lt_zero position
    rw [h.player, Player.seek, if_neg hnowhere]
  ending := h.ending
  hidden := h.hidden

end Session

/-- A moment that tells of a change leaves nothing. -/
theorem Happens.blank_of_changed {digest : Digest} {m : Moment} (h : Happens digest m)
    (hm : m.action = .changed) : m.after.session.Blank := by
  cases h with
  | @told d => exact Session.blank_documentChanged d.session d.document
  | moved hp _ =>
    cases hm
    cases hp
  | _ => cases hm

/-- Only a payload that is applied fills what is empty. -/
theorem Happens.blank {digest : Digest} {m : Moment} (h : Happens digest m)
    (hm : ∀ x, m.response ≠ .ended (.applied x)) (hblank : m.before.session.Blank) :
    m.after.session.Blank := by
  cases h with
  | @told d => exact Session.blank_documentChanged d.session d.document
  | started hs =>
    obtain ⟨-, rfl, -⟩ := Session.start_eq_some hs
    exact hblank.keeps ⟨rfl, rfl, rfl, rfl, rfl⟩
  | answered _ hf =>
    obtain ⟨hkeeps, -⟩ := hf.keeps fun x hx => hm x (congrArg Response.ended hx)
    exact hblank.keeps hkeeps
  | moved _ hp =>
    subst hp
    exact hblank.seek _
  | _ => exact hblank

/-- To ask for a render shows nothing yet. -/
theorem Happens.not_shows_of_start {digest : Digest} {m : Moment} {r : Render}
    (h : Happens digest m) (hm : m.action = .start r) : ¬ m.Shows := by
  cases h with
  | busy _ => simp [Moment.Shows]
  | started hs =>
    obtain ⟨-, rfl, -⟩ := Session.start_eq_some hs
    simp [Moment.Shows, Notice.reachesWidget]
  | moved hp _ =>
    cases hm
    cases hp
  | _ => cases hm

/-- Of two places in a list, the one whose entry is not found after the
other comes first. -/
theorem exists_between {α : Type} {xs ys zs ws : List α} {x y : α}
    (h : xs ++ x :: ys = zs ++ y :: ws) (hne : x ≠ y) (hx : x ∉ ws) :
    ∃ us, ys = us ++ y :: ws := by
  rcases List.append_eq_append_iff.mp h with ⟨us, -, hus⟩ | ⟨us, -, hus⟩
  · cases us with
    | nil => exact absurd (List.cons.inj hus).1 hne
    | cons _ us => exact ⟨us, (List.cons.inj hus).2⟩
  · cases us with
    | nil => exact absurd (List.cons.inj hus).1.symm hne
    | cons _ us =>
      rw [(List.cons.inj hus).2] at hx
      exact absurd (List.mem_append_right us List.mem_cons_self) hx

namespace Desk

variable {digest : Digest} {config : Config} {text : String} {actions : List Action}
variable {past between : List Moment} {start finish change : Moment}
variable {request : Request} {v : Verdict} {n : Nat} {a : Answer} {f : Flight}

/-! ## Both guards -/

/-- **What passes both guards was sent for the text that is there.** No
change was told in between, and the document is the one of the start. -/
theorem Meets.document_of_fits (h : Meets digest start between finish request v n a f)
    (hfits : Session.Fits digest finish.before.session finish.before.document f) :
    (∀ m ∈ between, m.action ≠ .changed) ∧
      finish.before.document = start.before.document ∧
      request.text = finish.before.document.text := by
  have hepoch := h.epoch
  rw [hfits.epoch] at hepoch
  have hcount : changes between = 0 := by omega
  rcases h.document with hsame | hlater
  · refine ⟨changes_eq_zero_iff.mp hcount, hsame, ?_⟩
    rw [← h.request, hsame]
    exact h.departs.remembers.2.1
  · -- a revision is not later than itself, whatever the text
    rw [hfits.revision] at hlater
    exact absurd hlater (Nat.lt_irrefl _)

/-- **An answer is seen exactly if it is applied.** -/
theorem Meets.shows_iff (h : Meets digest start between finish request v n a f) :
    finish.Shows ↔ ∃ x, v = .applied x := by
  constructor
  · intro hshows
    by_contra hv
    obtain ⟨hkeeps, hnotices, -⟩ := h.finished.keeps fun x hx => hv ⟨x, hx⟩
    rcases hshows with hs | hs | hs | hs | ⟨notice, hmem, hreach⟩
    · exact hs hkeeps.store
    · exact hs hkeeps.player
    · exact hs hkeeps.ending
    · exact hs hkeeps.hidden
    · rw [hnotices notice hmem] at hreach
      cases hreach
  · rintro ⟨x, rfl⟩
    exact Or.inr (Or.inr (Or.inr (Or.inr h.finished.fits.2)))

/-! ## Since a change -/

/-- **What is applied was started after every change.** -/
theorem exists_course_since {x : Summary} {later : List Moment}
    (h : (initial config text).run digest actions =
      (past ++ change :: between) ++ finish :: later)
    (hchange : change.action = .changed) (hfinish : finish.response = .ended (.applied x)) :
    ∃ start mid request,
      Course (between ++ [finish]) start mid finish request (.applied x) := by
  have hhappens : Happens digest finish :=
    happens_of_mem (h ▸ List.mem_append_right _ List.mem_cons_self)
  rcases hhappens.of_ended hfinish with ⟨-, hbusy, -⟩ | ⟨n, a, f, ha, -⟩
  · cases hbusy
  obtain ⟨start, mid, request, ⟨p, hp⟩, hcourse⟩ := exists_course h ha hfinish
  obtain ⟨n, a, f, -, hmeets⟩ := hcourse.meets
  obtain ⟨hmid, -, -⟩ := hmeets.document_of_fits hmeets.finished.fits.1
  have hne : change ≠ start := fun hsame =>
    hmeets.departs.action_ne_changed (hsame ▸ hchange)
  obtain ⟨us, hus⟩ := exists_between hp hne fun hmem => hmid change hmem hchange
  exact ⟨start, mid, request, ⟨us, [], by simp [hus]⟩, hcourse.answered⟩

/-- **What a change takes away stays away** until a render that was
started after it is applied. -/
theorem blank_since_change
    (h : (initial config text).run digest actions = past ++ change :: between)
    (hchange : change.action = .changed)
    (hno : ∀ start mid finish request x,
      ¬ Course between start mid finish request (.applied x)) :
    ((initial config text).afterAll digest actions).session.Blank := by
  induction between using List.reverseRecOn generalizing actions with
  | nil =>
    obtain ⟨xs, b, rfl, -, rfl⟩ := run_eq_concat h
    rw [afterAll_concat]
    exact (happens_moment digest _ b).blank_of_changed hchange
  | append_singleton between m ih =>
    rw [← List.cons_append, ← List.append_assoc] at h
    obtain ⟨xs, b, rfl, hxs, hm⟩ := run_eq_concat h
    have hblank := ih hxs.symm fun start mid finish request x hcourse =>
      hno start mid finish request x (hcourse.mono [] [m])
    rw [afterAll_concat]
    refine (happens_moment digest _ b).blank ?_ hblank
    -- what is applied here would have been started after the change
    intro x hx
    obtain ⟨start, mid, request, hcourse⟩ := exists_course_since h hchange (hm ▸ hx)
    exact hno start mid _ request x hcourse

/-- And so at every moment until then. -/
theorem blank_between {later : List Moment}
    (h : (initial config text).run digest actions = past ++ change :: (between ++ later))
    (hchange : change.action = .changed)
    (hno : ∀ start mid finish request x,
      ¬ Course between start mid finish request (.applied x)) :
    ∀ m ∈ change :: between, m.after.session.Blank := by
  intro m hm
  obtain ⟨us, vs, hsplit⟩ := List.append_of_mem hm
  have hrun : (initial config text).run digest actions = (past ++ us) ++ m :: (vs ++ later) := by
    rw [h, ← List.cons_append, hsplit, List.append_assoc, List.append_assoc, List.cons_append]
  obtain ⟨xs, b, ys, -, hxs, rfl, -⟩ := run_eq_append_cons hrun
  have hupto : (initial config text).run digest (xs ++ [b]) =
      past ++ (us ++ [((initial config text).afterAll digest xs).moment digest b]) := by
    rw [run_concat, ← hxs, List.append_assoc]
  rw [← afterAll_concat]
  cases us with
  | nil =>
    obtain ⟨rfl, -⟩ := List.cons.inj hsplit
    refine blank_since_change hupto hchange ?_
    rintro start mid finish request x ⟨⟨earlier, later, hnil⟩, -⟩
    exact absurd hnil.symm (by simp)
  | cons _ us =>
    rw [List.cons_append] at hsplit hupto
    obtain ⟨rfl, rfl⟩ := List.cons.inj hsplit
    refine blank_since_change hupto hchange ?_
    intro start mid finish request x hcourse
    refine hno start mid finish request x ?_
    have hlonger := hcourse.mono [] vs
    rwa [List.nil_append, List.append_assoc] at hlonger

/-! ## No run shows anything outdated -/

/-- **A run in which nothing outdated is shown.** -/
structure NeverOutdated (run : List Moment) : Prop where
  /-- To ask for a render shows nothing yet, whether it waits or is
  turned away. -/
  asked : ∀ m ∈ run, ∀ r, m.action = .start r → ¬ m.Shows
  /-- An answer that ends a render ends one that was started before. -/
  started : ∀ earlier finish later n a v, run = earlier ++ finish :: later →
    finish.action = .answer n a → finish.response = .ended v →
    ∃ past start between request, earlier = past ++ start :: between ∧
      Course run start between finish request v
  /-- Where the answer is seen, no change was told since the start, the
  revision is the one there was, and the text is the one that was
  sent. -/
  fresh : ∀ start between finish request v, Course run start between finish request v →
    finish.Shows →
    (∀ m ∈ between, m.action ≠ .changed) ∧
      finish.before.document.revision = start.before.document.revision ∧
      finish.before.document.text = request.text
  /-- What is seen was applied, and the rest ended in one of three other
  ways. -/
  ended : ∀ start between finish request v, Course run start between finish request v →
    (finish.Shows ∧ ∃ x, v = .applied x) ∨
      (¬ finish.Shows ∧ (v = .stale ∨ v = .failed ∨ v = .buildFailed))
  /-- From a change on nothing is shown, as long as no render is applied
  that was started after it. -/
  blank : ∀ past change between later, run = past ++ change :: (between ++ later) →
    change.action = .changed →
    (∀ start mid finish request x, ¬ Course between start mid finish request (.applied x)) →
    ∀ m ∈ change :: between, m.after.session.Blank

/-- **Whatever happens in whatever order, nothing outdated is shown.** -/
theorem run_neverOutdated (digest : Digest) (config : Config) (text : String)
    (actions : List Action) :
    NeverOutdated ((initial config text).run digest actions) where
  asked m hm r hr := (happens_of_mem hm).not_shows_of_start hr
  started earlier finish later n a v hrun ha hv := by
    obtain ⟨start, between, request, ⟨past, hpast⟩, hcourse⟩ := exists_course hrun ha hv
    exact ⟨past, start, between, request, hpast, hcourse⟩
  fresh start between finish request v hcourse hshows := by
    obtain ⟨n, a, f, -, hmeets⟩ := hcourse.meets
    obtain ⟨x, rfl⟩ := hmeets.shows_iff.mp hshows
    obtain ⟨hbetween, hdocument, htext⟩ := hmeets.document_of_fits hmeets.finished.fits.1
    exact ⟨hbetween, congrArg Document.revision hdocument, htext.symm⟩
  ended start between finish request v hcourse := by
    obtain ⟨n, a, f, -, hmeets⟩ := hcourse.meets
    by_cases hv : ∃ x, v = .applied x
    · exact Or.inl ⟨hmeets.shows_iff.mpr hv, hv⟩
    · obtain ⟨-, -, hends⟩ := hmeets.finished.keeps fun x hx => hv ⟨x, hx⟩
      exact Or.inr ⟨fun hshows => hv (hmeets.shows_iff.mp hshows), hends⟩
  blank past change between later hrun hchange hno := blank_between hrun hchange hno

/-- An edit that is undone leaves the text as it was, and still the
answer is not shown; the one to a later render is. -/
example :
    ((initial .initial "f(x)").run (fun _ => 0)
      [.start ⟨.boundaries, []⟩, .edit (.insert 0 "g"), .edit (.delete ⟨0, 1⟩),
        .answer 0 (.text "\x7b\"Ok\":[]\x7d"), .start ⟨.boundaries, []⟩,
        .answer 1 (.text "\x7b\"Ok\":[]\x7d")]).map
      (fun m => (m.after.document.text, m.notices.length)) =
    [("f(x)", 1), ("gf(x)", 0), ("f(x)", 0), ("f(x)", 0), ("f(x)", 1), ("f(x)", 1)] := by
  decide +kernel

end Desk

end Marginalia
