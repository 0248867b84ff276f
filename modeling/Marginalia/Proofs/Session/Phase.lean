import Marginalia.Proofs.Session.Course

/-!
# Session — one render at a time

The flights that wait may be many, but those of the current epoch are
what counts: they are *live*. The phase of a session is exact
(`Desk.Exact`): either it is at rest and nothing is live, or one flight
is and the phase says for which command. A flight that an earlier change
put out is not live, and its answer finds a session of another epoch: it
can neither end the wait for a newer one nor disturb it.
-/

namespace Marginalia

namespace Desk

/-- The flights of the current epoch. -/
def live (d : Desk) : List (Nat × Flight) :=
  d.waiting.filter fun w => w.2.epoch = d.session.epoch

variable {digest : Digest} {d : Desk} {m : Moment} {w : Nat × Flight} {n : Nat} {f : Flight}

theorem mem_live : w ∈ d.live ↔ w ∈ d.waiting ∧ w.2.epoch = d.session.epoch := by
  simp [live]

/-- **The phase is exact.** -/
structure Exact (d : Desk) : Prop where
  /-- No flight is of an epoch to come. -/
  epochs : ∀ w ∈ d.waiting, w.2.epoch ≤ d.session.epoch
  /-- The session is at rest and nothing is live, or it waits for the one
  flight that is. -/
  phase : (d.session.phase = .idle ∧ d.live = []) ∨
    ∃ w, d.live = [w] ∧ d.session.phase = .requesting w.2.command

namespace Exact

theorem initial (config : Config) (text : String) : (Desk.initial config text).Exact where
  epochs _ hw := absurd hw List.not_mem_nil
  phase := Or.inl ⟨rfl, rfl⟩

/-- A flight that is live is the only one. -/
theorem of_mem_live (h : d.Exact) (hw : w ∈ d.live) :
    d.live = [w] ∧ d.session.phase = .requesting w.2.command := by
  rcases h.phase with ⟨-, hnil⟩ | ⟨w', hw', hphase⟩
  · rw [hnil] at hw
    exact absurd hw List.not_mem_nil
  · rw [hw', List.mem_singleton] at hw
    subst hw
    exact ⟨hw', hphase⟩

/-- The session waits exactly if something is live. -/
theorem requesting_iff (h : d.Exact) (c : Command) :
    d.session.phase = .requesting c ↔ ∃ w, d.live = [w] ∧ w.2.command = c := by
  rcases h.phase with ⟨hphase, hlive⟩ | ⟨w, hlive, hphase⟩ <;> rw [hphase, hlive]
  · simp
  · simp

/-- Where the session does not wait, nothing is live. -/
theorem live_eq_nil (h : d.Exact) (hd : ∀ c, d.session.phase ≠ .requesting c) :
    d.live = [] := by
  rcases h.phase with ⟨-, hlive⟩ | ⟨w, -, hphase⟩
  · exact hlive
  · exact absurd hphase (hd _)

end Exact

/-! ## One moment -/

/-- After an answer the live flights are those there were, without the
one that was answered. -/
theorem live_answered {s : Session} (hs : s.epoch = d.session.epoch) :
    live { d with session := s, waiting := d.waiting.filter fun w => w.1 ≠ n } =
      d.live.filter fun w => w.1 ≠ n := by
  simp only [live, hs, List.filter_filter]
  exact List.filter_congr fun w _ => Bool.and_comm _ _

/-- A flight that is not live has a number that no live one has. -/
theorem live_filter_of_epoch_ne (hn : (d.waiting.map Prod.fst).Nodup)
    (hf : d.flight? n = some f) (hne : d.session.epoch ≠ f.epoch) :
    (d.live.filter fun w => w.1 ≠ n) = d.live := by
  rw [List.filter_eq_self]
  intro w hw
  obtain ⟨hmem, hepoch⟩ := mem_live.mp hw
  have hnumber : w.1 ≠ n := by
    intro hsame
    have hwf : w = (n, f) :=
      List.inj_on_of_nodup_map hn hmem (mem_of_flight? hf) hsame
    exact hne (by rw [← hepoch, hwf])
  simpa using hnumber

/-- The answer to the live flight leaves nothing live. -/
theorem live_filter_of_epoch_eq (h : d.Exact) (hf : d.flight? n = some f)
    (hepoch : d.session.epoch = f.epoch) : (d.live.filter fun w => w.1 ≠ n) = [] := by
  have hmem : (n, f) ∈ d.live := mem_live.mpr ⟨mem_of_flight? hf, hepoch.symm⟩
  rw [(h.of_mem_live hmem).1]
  simp

/-- A started flight is live, and alone. -/
theorem Exact.started {r : Render} {s : Session} (h : d.Exact)
    (hs : d.session.start digest d.document r = some (s, f)) :
    Exact ⟨d.document, s, d.started + 1, d.waiting ++ [(d.started, f)]⟩ := by
  obtain ⟨hphase, rfl, hf⟩ := Session.start_eq_some hs
  have hepoch : f.epoch = d.session.epoch := by rw [hf]
  have hcommand : f.command = r.job.command := by rw [hf, Flight.command]
  constructor
  · intro w hw
    rcases List.mem_append.mp hw with hw | hw
    · exact h.epochs w hw
    · rw [List.mem_singleton.mp hw]
      exact Nat.le_of_eq hepoch
  · refine Or.inr ⟨(d.started, f), ?_, congrArg Phase.requesting hcommand.symm⟩
    have hnil := h.live_eq_nil hphase
    unfold live at hnil ⊢
    rw [List.filter_append, hnil]
    simp [hepoch]

/-- An answer ends the wait exactly if it is the answer to the live
flight. -/
theorem Exact.answered {a : Answer} {s : Session} {notices : List Notice} {v : Verdict}
    (h : d.Exact) (hn : (d.waiting.map Prod.fst).Nodup) (hf : d.flight? n = some f)
    (hfinished : d.session.Finished digest d.document f a s notices v) :
    Exact ⟨d.document, s, d.started, d.waiting.filter fun w => w.1 ≠ n⟩ := by
  constructor
  · intro w hw
    rw [hfinished.epoch]
    exact h.epochs w (List.mem_of_mem_filter hw)
  · rw [live_answered hfinished.epoch]
    -- the epoch alone decides whether the answer is to the live flight
    by_cases hepoch : d.session.epoch = f.epoch
    · exact Or.inl ⟨hfinished.phase hepoch, live_filter_of_epoch_eq h hf hepoch⟩
    · obtain ⟨rfl, -, -⟩ := hfinished.of_outdated hepoch
      rw [live_filter_of_epoch_ne hn hf hepoch]
      exact h.phase

/-- A change puts every flight out. -/
theorem Exact.told (h : d.Exact) :
    Exact { d with session := (d.session.documentChanged d.document).1 } := by
  constructor
  · intro w hw
    exact Nat.le_succ_of_le (h.epochs w hw)
  · refine Or.inl ⟨rfl, ?_⟩
    unfold live
    rw [List.filter_eq_nil_iff]
    intro w hw hlive
    have hle := h.epochs w hw
    have heq : w.2.epoch = d.session.epoch + 1 := of_decide_eq_true hlive
    omega

/-- **Every moment keeps the phase exact.** -/
theorem Exact.step (hm : Happens digest m) (hn : (m.before.waiting.map Prod.fst).Nodup)
    (h : m.before.Exact) : m.after.Exact := by
  cases hm with
  | told => exact h.told
  | started hs => exact h.started hs
  | answered hf hfinished => exact h.answered hn hf hfinished
  | _ => exact ⟨h.epochs, h.phase⟩

/-- And so does every run. -/
theorem Exact.afterAll (digest : Digest) (config : Config) (text : String)
    (actions : List Action) : ((Desk.initial config text).afterAll digest actions).Exact := by
  have hboth : Accounted digest ((Desk.initial config text).run digest actions)
        ((Desk.initial config text).afterAll digest actions) ∧
      ((Desk.initial config text).afterAll digest actions).Exact := by
    refine run_induction (P := fun past d => Accounted digest past d ∧ d.Exact)
      ⟨Accounted.initial digest config text, Exact.initial config text⟩ ?_ actions
    rintro past m hm ⟨haccounted, hexact⟩
    exact ⟨haccounted.step hm, hexact.step hm haccounted.nodup⟩
  exact hboth.2

/-! ## What one can tell -/

/-- A render is turned away, or it is started. -/
theorem moment_start (digest : Digest) (d : Desk) (r : Render) :
    (d.session.start digest d.document r = none ∧
      d.moment digest (.start r) = ⟨d, .start r, [], .ended .busy, d⟩) ∨
    ∃ s f, d.session.start digest d.document r = some (s, f) ∧
      d.moment digest (.start r) = ⟨d, .start r, [.call f.request], .waiting d.started,
        ⟨d.document, s, d.started + 1, d.waiting ++ [(d.started, f)]⟩⟩ := by
  cases hs : d.session.start digest d.document r with
  | none => exact Or.inl ⟨rfl, by simp only [moment, act, hs]⟩
  | some started => exact Or.inr ⟨started.1, started.2, rfl, moment_of_start hs⟩

/-- A desk on which **at most one render is live**, and the phase says
which. -/
structure Exclusive (digest : Digest) (d : Desk) : Prop where
  /-- The session waits for a command exactly if one flight is live, and
  it is for this command. -/
  requesting : ∀ c, d.session.phase = .requesting c ↔ ∃ w, d.live = [w] ∧ w.2.command = c
  /-- Otherwise it is at rest. -/
  idle : (∀ c, d.session.phase ≠ .requesting c) → d.session.phase = .idle
  /-- No two flights are live. -/
  single : d.live.length ≤ 1
  /-- A render is turned away exactly if the session waits. -/
  busy : ∀ r, (d.moment digest (.start r)).response = .ended .busy ↔
    ∃ c, d.session.phase = .requesting c
  /-- What is turned away changes nothing and asks for nothing. -/
  turned : ∀ r, (d.moment digest (.start r)).response = .ended .busy →
    (d.moment digest (.start r)).after = d ∧ (d.moment digest (.start r)).notices = []
  /-- What is not asks for its analysis once, and is live. -/
  called : ∀ r, (d.moment digest (.start r)).response ≠ .ended .busy →
    ∃ f, (d.moment digest (.start r)).after.live = [(d.started, f)] ∧
      f.job = r.job ∧ (d.moment digest (.start r)).notices = [.call f.request]
  /-- Nothing but a render asks for an analysis. -/
  silent : ∀ a, (∀ r, a ≠ .start r) → ∀ request, .call request ∉ (d.moment digest a).notices

/-- An answer that is **passed over**: nothing is other than before, but
that one flight no longer waits. -/
structure PassedOver (m : Moment) : Prop where
  notices : m.notices = []
  session : m.after.session = m.before.session
  document : m.after.document = m.before.document
  live : m.after.live = m.before.live
  waiting : ∃ n a, m.action = .answer n a ∧
    m.after.waiting = m.before.waiting.filter fun w => w.1 ≠ n

/-- What can be told of a desk whose phase is exact. -/
theorem Exact.exclusive (h : d.Exact) (digest : Digest) : d.Exclusive digest where
  requesting := h.requesting_iff
  idle hd := by
    rcases h.phase with ⟨hphase, -⟩ | ⟨w, -, hphase⟩
    · exact hphase
    · exact absurd hphase (hd _)
  single := by
    rcases h.phase with ⟨-, hlive⟩ | ⟨w, hlive, -⟩ <;> simp [hlive]
  busy r := by
    have hnone : d.session.start digest d.document r = none ↔
        ∃ c, d.session.phase = .requesting c := Session.start_eq_none_iff
    rw [← hnone]
    rcases moment_start digest d r with ⟨hs, hm⟩ | ⟨s, f, hs, hm⟩ <;> simp [hs, hm]
  turned r hr := by
    rcases moment_start digest d r with ⟨-, hm⟩ | ⟨s, f, -, hm⟩ <;> rw [hm] at hr ⊢
    · exact ⟨rfl, rfl⟩
    · cases hr
  called r hr := by
    rcases moment_start digest d r with ⟨-, hm⟩ | ⟨s, f, hs, hm⟩ <;> rw [hm] at hr ⊢
    · exact absurd rfl hr
    · refine ⟨f, ?_, (Session.start_eq_some hs).2.2 ▸ rfl, rfl⟩
      have hlive : (d.started, f) ∈ live ⟨d.document, s, d.started + 1,
          d.waiting ++ [(d.started, f)]⟩ := by
        obtain ⟨-, rfl, rfl⟩ := Session.start_eq_some hs
        exact mem_live.mpr ⟨List.mem_append_right _ (List.mem_singleton_self _), rfl⟩
      exact ((h.started hs).of_mem_live hlive).1
  silent a ha request := (happens_moment digest d a).call_not_mem ha request

/-- The answer to a flight of an epoch that is over is passed over. -/
theorem Meets.passedOver {start finish : Moment} {between : List Moment} {request : Request}
    {v : Verdict} {a : Answer} (h : Meets digest start between finish request v n a f)
    (ha : finish.action = .answer n a) (hn : (finish.before.waiting.map Prod.fst).Nodup)
    (hne : finish.before.session.epoch ≠ f.epoch) : v = .stale ∧ PassedOver finish := by
  obtain ⟨hsession, hnotices, hv⟩ := h.finished.of_outdated hne
  have hlive : finish.after.live = finish.before.live := by
    rw [h.after, live_answered (congrArg Session.epoch hsession)]
    exact live_filter_of_epoch_ne hn h.waits hne
  have hdocument : finish.after.document = finish.before.document := by rw [h.after]
  have hwaiting : finish.after.waiting = finish.before.waiting.filter fun w => w.1 ≠ n := by
    rw [h.after]
  exact ⟨hv, hnotices, hsession, hdocument, hlive, n, a, ha, hwaiting⟩

/-- **At every point of every run at most one render is live** and the
phase says which, and the answers to renders that a change put out are
passed over. -/
theorem run_exclusive (digest : Digest) (config : Config) (text : String)
    (actions : List Action) :
    Exclusive digest ((initial config text).afterAll digest actions) ∧
      ∀ start between finish request v,
        Course ((initial config text).run digest actions) start between finish request v →
        (∃ m ∈ between, m.action = .changed) → v = .stale ∧ PassedOver finish := by
  refine ⟨(Exact.afterAll digest config text actions).exclusive digest, ?_⟩
  rintro start between finish request v hcourse ⟨m, hm, hchange⟩
  obtain ⟨n, a, f, ha, hmeets⟩ := hcourse.meets
  obtain ⟨earlier, later, hrun⟩ := hcourse.placed
  rw [← List.cons_append, ← List.append_assoc] at hrun
  refine hmeets.passedOver ha (Accounted.before hrun).nodup ?_
  have hcount : changes between ≠ 0 := fun hzero => changes_eq_zero_iff.mp hzero m hm hchange
  have hepoch := hmeets.epoch
  omega

/-- A late answer does not end the wait for a newer one. -/
example :
    ((initial .initial "f(x)").run (fun _ => 0)
      [.start ⟨.boundaries, []⟩, .changed, .start ⟨.interpreter false, []⟩,
        .answer 0 (.text "\x7b\"Ok\":[]\x7d"), .start ⟨.boundaries, []⟩, .answer 1 .silence]).map
      (fun m => m.after.session.phase) =
    [.requesting .boundaries, .idle, .requesting .interpreter, .requesting .interpreter,
      .requesting .interpreter, .idle] := by
  decide +kernel

end Desk

end Marginalia
