import Marginalia.Proofs.Session.Waiting

/-!
# Session — the course of a render

A render is started at one moment of a run and ends at another, where it
gets its answer; between the two anything may happen
(`Desk.Course`). The flight is what ties the ends together: it took off
at the first, and at the last it is held against what it meets. What it
meets tells what happened since: the epoch went up by the changes in
between, and the document is the same or at a later revision
(`Course.meets`).
-/

namespace Marginalia

/-- An answer that ends a render ends the flight that waits for it. -/
theorem Happens.finished {digest : Digest} {m : Moment} {n : Nat} {a : Answer} {v : Verdict}
    (h : Happens digest m)
    (ha : m.action = .answer n a) (hv : m.response = .ended v) :
    ∃ f, m.before.flight? n = some f ∧
      m.before.session.Finished digest m.before.document f a m.after.session m.notices v ∧
      m.after = { m.before with
        session := m.after.session
        waiting := m.before.waiting.filter fun w => w.1 ≠ n } := by
  rcases h.of_ended hv with ⟨⟨r, hr⟩, -⟩ | ⟨n', a', f, ha', hf, hfinished, hafter⟩
  · rw [hr] at ha
    cases ha
  · rw [ha'] at ha
    cases ha
    exact ⟨f, hf, hfinished, hafter⟩

namespace Desk

variable {digest : Digest} {d : Desk} {config : Config} {text : String}
variable {actions : List Action} {run earlier between : List Moment} {start finish : Moment}
variable {request : Request} {v : Verdict} {n : Nat} {f : Flight}

/-! ## What happened since -/

/-- **What a flight meets tells what happened since it took off.** -/
theorem since_departure (h : d.run digest actions = earlier ++ start :: between)
    (hstart : Departs digest start f) :
    (d.afterAll digest actions).session.epoch = f.epoch + changes between ∧
      ((d.afterAll digest actions).document = start.before.document ∨
        f.revision.number < (d.afterAll digest actions).document.revision.number) := by
  obtain ⟨xs, a, ys, rfl, rfl, rfl, rfl⟩ := run_eq_append_cons h
  have hsame : (d.afterAll digest xs).run digest (a :: ys) =
      (d.afterAll digest xs).moment digest a ::
        ((d.afterAll digest xs).moment digest a).after.run digest ys := rfl
  rw [afterAll_append, epoch_afterAll, hsame, hstart.remembers.1, hstart.revision]
  refine ⟨?_, document_afterAll digest (d.afterAll digest xs) (a :: ys)⟩
  -- the start itself is no change
  have hcount := hstart.action_ne_changed
  simp only [changes, List.countP_cons, hcount, decide_false]
  rfl

/-- Where an answer finds a flight waiting, the flight took off at one
moment of the past. -/
theorem exists_departure
    (h : ((initial config text).afterAll digest actions).flight? n = some f) :
    ∃ earlier start between,
      (initial config text).run digest actions = earlier ++ start :: between ∧
        start.response = .waiting n ∧ Departs digest start f := by
  have hpast := Accounted.afterAll digest config text actions
  obtain ⟨start, hstart, hn⟩ := hpast.departed (n, f) (mem_of_flight? h)
  obtain ⟨earlier, between, hrun⟩ := List.append_of_mem hstart
  exact ⟨earlier, start, between, hrun, hn,
    hpast.departs (n, f) (mem_of_flight? h) start hstart hn⟩

/-! ## Both ends -/

/-- **The course of a render** within a run: a request is sent, things
happen, and the answer ends the render. -/
structure Course (run : List Moment) (start : Moment) (between : List Moment) (finish : Moment)
    (request : Request) (v : Verdict) : Prop where
  /-- One comes after the other. -/
  placed : ∃ earlier later, run = earlier ++ start :: (between ++ finish :: later)
  /-- The answer is to what was asked at the start. -/
  answered : ∃ r n a, start.action = .start r ∧ start.notices = [.call request] ∧
    start.response = .waiting n ∧ finish.action = .answer n a ∧ finish.response = .ended v

/-- What happens around a course does not matter to it. -/
theorem Course.mono (h : Course run start between finish request v) (xs ys : List Moment) :
    Course (xs ++ run ++ ys) start between finish request v := by
  obtain ⟨⟨earlier, later, rfl⟩, hanswered⟩ := h
  exact ⟨⟨xs ++ earlier, later ++ ys, by simp⟩, hanswered⟩

/-- **What the answer meets.** The flight that took off at the start is
the one that is ended, and all else on the desk is left to be. -/
structure Meets (digest : Digest) (start : Moment) (between : List Moment) (finish : Moment)
    (request : Request) (v : Verdict) (n : Nat) (a : Answer) (f : Flight) : Prop where
  departs : Departs digest start f
  request : f.request = request
  waits : finish.before.flight? n = some f
  finished : finish.before.session.Finished digest finish.before.document f a
    finish.after.session finish.notices v
  after : finish.after = { finish.before with
    session := finish.after.session
    waiting := finish.before.waiting.filter fun w => w.1 ≠ n }
  epoch : finish.before.session.epoch = f.epoch + changes between
  document : finish.before.document = start.before.document ∨
    f.revision.number < finish.before.document.revision.number

/-- **The answer of a course meets the flight that its start sent.** -/
theorem Course.meets
    (h : Course ((initial config text).run digest actions) start between finish request v) :
    ∃ n a f, finish.action = .answer n a ∧
      Meets digest start between finish request v n a f := by
  obtain ⟨⟨earlier, later, hrun⟩, r, n, a, -, hcall, hn, ha, hv⟩ := h
  rw [← List.cons_append, ← List.append_assoc] at hrun
  have haccounted := Accounted.before hrun
  obtain ⟨xs, b, ys, -, hpast, rfl, -⟩ := run_eq_append_cons hrun
  obtain ⟨f, hf, hfinished, hafter⟩ := (happens_moment digest _ b).finished ha hv
  have hdeparts : Departs digest start f :=
    haccounted.departs _ (mem_of_flight? hf) start (by simp) hn
  obtain ⟨hepoch, hdocument⟩ := since_departure hpast.symm hdeparts
  refine ⟨n, a, f, ha, hdeparts, ?_, hf, hfinished, hafter, hepoch, hdocument⟩
  -- the start made one request known, which is the one of the flight
  have hsame := hdeparts.called.symm.trans hcall
  cases hsame
  rfl

/-- **Every render that an answer ends has a course.** -/
theorem exists_course {a : Answer} {later : List Moment}
    (h : (initial config text).run digest actions = earlier ++ finish :: later)
    (ha : finish.action = .answer n a) (hv : finish.response = .ended v) :
    ∃ start between request, (∃ past, earlier = past ++ start :: between) ∧
      Course ((initial config text).run digest actions) start between finish request v := by
  obtain ⟨xs, b, ys, -, rfl, rfl, -⟩ := run_eq_append_cons h
  obtain ⟨f, hf, -, -⟩ := (happens_moment digest _ b).finished ha hv
  obtain ⟨past, start, between, hxs, hn, hdeparts⟩ := exists_departure hf
  obtain ⟨r, hr, -⟩ := hdeparts.started
  refine ⟨start, between, f.request, ⟨past, hxs⟩, ⟨past, later, ?_⟩,
    r, n, a, hr, hdeparts.called, hn, ha, hv⟩
  rw [h, hxs, List.append_assoc, List.cons_append]

end Desk

end Marginalia
