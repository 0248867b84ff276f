import Marginalia.Proofs.Session.Run
import Marginalia.Proofs.Text.History
import Mathlib.Data.List.Nodup

/-!
# Session — flights that wait

Every flight that waits was started at one moment of the past, and its
number names that moment alone (`Desk.Accounted`). So what the flight
remembers is what was there at that moment (`Departs`). A flight that
still fits finds the text it was sent with (`Desk.Abreast.of_fits`):
every edit since would have led to a later revision.
-/

namespace Marginalia

/-- **A flight takes off.** The session gave the flight to a render, and
nothing was made known but its request. -/
structure Departs (digest : Digest) (m : Moment) (f : Flight) : Prop where
  started : ∃ r, m.action = .start r ∧
    m.before.session.start digest m.before.document r = some (m.after.session, f)
  called : m.notices = [.call f.request]

namespace Departs

variable {digest : Digest} {m : Moment} {f : Flight}

/-- What the flight remembers was there when it took off. -/
theorem remembers (h : Departs digest m f) :
    f.epoch = m.before.session.epoch ∧ f.text = m.before.document.text ∧
      f.fingerprint = m.before.document.fingerprint digest := by
  obtain ⟨r, -, hr⟩ := h.started
  obtain ⟨-, -, rfl⟩ := Session.start_eq_some hr
  exact ⟨rfl, rfl, rfl⟩

theorem revision (h : Departs digest m f) : f.revision = m.before.document.revision :=
  congrArg Fingerprint.revision h.remembers.2.2

/-- To take off is not to be told of a change. -/
theorem action_ne_changed (h : Departs digest m f) : m.action ≠ .changed := by
  obtain ⟨r, hr, -⟩ := h.started
  rw [hr]
  exact Action.noConfusion

end Departs

namespace Desk

variable {digest : Digest} {d : Desk} {n : Nat} {f : Flight}

theorem mem_of_flight? (h : d.flight? n = some f) : (n, f) ∈ d.waiting := by
  obtain ⟨w, hw, rfl⟩ := Option.map_eq_some_iff.mp h
  have hn : w.1 = n := by simpa using List.find?_some hw
  exact hn ▸ List.mem_of_find?_eq_some hw

/-- **The flights that wait, as the past accounts for them.** -/
structure Accounted (digest : Digest) (past : List Moment) (d : Desk) : Prop where
  /-- Numbers are given in order. -/
  issued : ∀ m ∈ past, ∀ n, m.response = .waiting n → n < d.started
  /-- No two flights wait under one number. -/
  nodup : (d.waiting.map Prod.fst).Nodup
  /-- Each flight got its number in the past. -/
  departed : ∀ w ∈ d.waiting, ∃ m ∈ past, m.response = .waiting w.1
  /-- Where a number was given, the flight took off that waits under it. -/
  departs : ∀ w ∈ d.waiting, ∀ m ∈ past, m.response = .waiting w.1 → Departs digest m w.2

namespace Accounted

variable {past : List Moment} {m : Moment}

theorem initial (digest : Digest) (config : Config) (text : String) :
    Accounted digest [] (Desk.initial config text) where
  issued _ hm := absurd hm List.not_mem_nil
  nodup := List.nodup_nil
  departed _ hw := absurd hw List.not_mem_nil
  departs _ hw := absurd hw List.not_mem_nil

theorem lt_started (h : Accounted digest past d) {w : Nat × Flight} (hw : w ∈ d.waiting) :
    w.1 < d.started := by
  obtain ⟨m, hm, hn⟩ := h.departed w hw
  exact h.issued m hm w.1 hn

/-- A moment that starts nothing may take flights away. -/
theorem of_sublist (h : Accounted digest past m.before)
    (hm : ∀ n, m.response ≠ .waiting n) (hstarted : m.after.started = m.before.started)
    (hwaiting : m.after.waiting.Sublist m.before.waiting) :
    Accounted digest (past ++ [m]) m.after where
  issued x hx n hn := by
    rcases List.mem_append.mp hx with hx | hx
    · exact hstarted ▸ h.issued x hx n hn
    · exact absurd (List.mem_singleton.mp hx ▸ hn) (hm n)
  nodup := h.nodup.sublist (hwaiting.map Prod.fst)
  departed w hw := by
    obtain ⟨x, hx, hn⟩ := h.departed w (hwaiting.subset hw)
    exact ⟨x, List.mem_append_left _ hx, hn⟩
  departs w hw x hx hn := by
    rcases List.mem_append.mp hx with hx | hx
    · exact h.departs w (hwaiting.subset hw) x hx hn
    · exact absurd (List.mem_singleton.mp hx ▸ hn) (hm w.1)

/-- A moment that starts a flight gives it a number of its own. -/
theorem of_start (h : Accounted digest past m.before)
    (hm : m.response = .waiting m.before.started)
    (hstarted : m.after.started = m.before.started + 1)
    (hwaiting : m.after.waiting = m.before.waiting ++ [(m.before.started, f)])
    (hdeparts : Departs digest m f) : Accounted digest (past ++ [m]) m.after where
  issued x hx n hn := by
    rw [hstarted]
    rcases List.mem_append.mp hx with hx | hx
    · exact Nat.lt_succ_of_lt (h.issued x hx n hn)
    · rw [List.mem_singleton.mp hx, hm] at hn
      cases hn
      exact Nat.lt_succ_self _
  nodup := by
    rw [hwaiting, List.map_append, List.nodup_append]
    refine ⟨h.nodup, List.nodup_singleton _, ?_⟩
    intro k hk k' hk'
    obtain ⟨w, hw, rfl⟩ := List.mem_map.mp hk
    rw [List.mem_singleton.mp hk']
    exact Nat.ne_of_lt (h.lt_started hw)
  departed w hw := by
    rw [hwaiting] at hw
    rcases List.mem_append.mp hw with hw | hw
    · obtain ⟨x, hx, hn⟩ := h.departed w hw
      exact ⟨x, List.mem_append_left _ hx, hn⟩
    · rw [List.mem_singleton.mp hw]
      exact ⟨m, List.mem_append_right _ (List.mem_singleton_self m), hm⟩
  departs w hw x hx hn := by
    rw [hwaiting] at hw
    rcases List.mem_append.mp hw with hw | hw <;> rcases List.mem_append.mp hx with hx | hx
    · exact h.departs w hw x hx hn
    · -- an older flight has an older number
      rw [List.mem_singleton.mp hx, hm] at hn
      exact absurd (Response.waiting.inj hn) (Nat.ne_of_gt (h.lt_started hw))
    · -- and the number of this one was not given before
      rw [List.mem_singleton.mp hw] at hn
      exact absurd (h.issued x hx _ hn) (Nat.lt_irrefl _)
    · rw [List.mem_singleton.mp hw, List.mem_singleton.mp hx]
      exact hdeparts

/-- **Every moment keeps the account.** -/
theorem step (hm : Happens digest m) (h : Accounted digest past m.before) :
    Accounted digest (past ++ [m]) m.after := by
  cases hm with
  | started hr => exact h.of_start rfl rfl rfl ⟨⟨_, rfl, hr⟩, rfl⟩
  | answered _ _ => exact h.of_sublist (fun _ => Response.noConfusion) rfl List.filter_sublist
  | _ => exact h.of_sublist (fun _ => Response.noConfusion) rfl (List.Sublist.refl _)

/-- And so does every run. -/
theorem afterAll (digest : Digest) (config : Config) (text : String) (actions : List Action) :
    Accounted digest ((Desk.initial config text).run digest actions)
      ((Desk.initial config text).afterAll digest actions) :=
  run_induction (Accounted.initial digest config text) (fun _ _ => step) actions

/-- Every moment of a run finds the account of what happened before. -/
theorem before {config : Config} {text : String} {actions : List Action} {later : List Moment}
    (h : (Desk.initial config text).run digest actions = past ++ m :: later) :
    Accounted digest past m.before := by
  obtain ⟨xs, a, ys, -, rfl, rfl, -⟩ := run_eq_append_cons h
  exact Accounted.afterAll digest config text xs

end Accounted

end Desk

/-! ## Flights and the text they were sent with -/

/-- **What waits was sent with the text of its revision.** -/
structure Desk.Abreast (d : Desk) : Prop where
  kept : d.document.Kept
  counted : d.document.Counted
  /-- No flight is of a revision to come. -/
  earlier : ∀ w ∈ d.waiting, w.2.revision.number ≤ d.document.revision.number
  /-- A flight of the revision that is there has the text that is
  there. -/
  text : ∀ w ∈ d.waiting, w.2.revision = d.document.revision → w.2.text = d.document.text

namespace Desk

variable {digest : Digest} {m : Moment} {d : Desk} {n : Nat} {f : Flight}

namespace Abreast

theorem initial (config : Config) (text : String) : (Desk.initial config text).Abreast where
  kept := Document.kept_ofText text
  counted := Document.counted_ofText text
  earlier _ hw := absurd hw List.not_mem_nil
  text _ hw := absurd hw List.not_mem_nil

/-- Every moment keeps it. -/
theorem step (hm : Happens digest m) (h : m.before.Abreast) : m.after.Abreast := by
  cases hm with
  | edited he =>
    have hlater := Document.revision_lt_of_apply he
    refine ⟨h.kept.apply he, h.counted.apply he, ?_, ?_⟩
    · intro w hw
      exact Nat.le_of_lt (Nat.lt_of_le_of_lt (h.earlier w hw) hlater)
    · -- what waited is of an earlier revision now
      intro w hw hsame
      have hearlier := h.earlier w hw
      rw [hsame] at hearlier
      exact absurd hlater (Nat.not_lt.mpr hearlier)
  | started hs =>
    obtain ⟨-, -, rfl⟩ := Session.start_eq_some hs
    refine ⟨h.kept, h.counted, ?_, ?_⟩
    · intro w hw
      rcases List.mem_append.mp hw with hw | hw
      · exact h.earlier w hw
      · rw [List.mem_singleton.mp hw]
        exact Nat.le_refl _
    · intro w hw hsame
      rcases List.mem_append.mp hw with hw | hw
      · exact h.text w hw hsame
      · rw [List.mem_singleton.mp hw]
  | answered _ _ =>
    exact ⟨h.kept, h.counted, fun w hw => h.earlier w (List.mem_of_mem_filter hw),
      fun w hw => h.text w (List.mem_of_mem_filter hw)⟩
  | _ => exact ⟨h.kept, h.counted, h.earlier, h.text⟩

/-- **A flight that fits finds the text it was sent with**, every span of
it where it was. -/
theorem of_fits (h : d.Abreast) (hf : d.flight? n = some f)
    (hfits : Session.Fits digest d.session d.document f) :
    (∀ span, d.document.map? span f.revision = some span) ∧
      d.document.length = f.text.length := by
  refine ⟨fun span => ?_, ?_⟩
  · rw [hfits.revision]
    exact Document.map?_now h.kept span
  · rw [h.text (n, f) (mem_of_flight? hf) hfits.revision]
    exact h.counted

end Abreast

end Desk

end Marginalia
