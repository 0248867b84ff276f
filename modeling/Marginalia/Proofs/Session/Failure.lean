import Marginalia.Proofs.Session.Run

/-!
# Session — all or nothing

A render is applied, or it is as if it had never been: what the session
shows stays as it was, the widget is left alone, and at most one report
says what went wrong (`Moment.AllOrNothing`). Where the flight still
fits, the text of the answer decides alone, by what it is read as
(`Decides`). That a payload of another command is taken for an outage is
spelled by the session, but happens nowhere: the reply is read as one to
the command of the request, and so is its payload.
-/

namespace Marginalia

/-- **What a text is read as decides**: to a payload, a refusal and all
else there is one verdict each. -/
structure Decides (c : Command) (a : Answer) (v : Verdict) : Prop where
  applied : (∃ x, v = .applied x) ↔
    ∃ p raw, a = .text raw ∧ Reply.decode c raw = .ok (.ok p)
  refused : v = .buildFailed ↔
    ∃ r raw, a = .text raw ∧ Reply.decode c raw = .ok (.error r)
  failed : v = .failed ↔
    ¬ ∃ reply raw, a = .text raw ∧ Reply.decode c raw = .ok reply

/-- **A moment that ends a render all or nothing.** -/
structure Moment.AllOrNothing (digest : Digest) (m : Moment) : Prop where
  /-- Where the render is not applied, nothing shown is other than it
  was, and the widget is not called. -/
  keeps : ∀ v, m.response = .ended v → (∀ x, v ≠ .applied x) →
    Session.Keeps m.before.session m.after.session ∧
      ∀ n ∈ m.notices, n.reachesWidget = false
  /-- What is turned away or too late is passed over in silence. -/
  silent : m.response = .ended .busy ∨ m.response = .ended .stale → m.notices = []
  /-- That there is no reply is reported once. -/
  failed : m.response = .ended .failed →
    ∃ phase o, m.notices = [.report phase (.outage o)]
  /-- So is a refusal. -/
  refused : m.response = .ended .buildFailed →
    ∃ phase r, m.notices = [.report phase (.refused r)]
  /-- An answer to a flight that still fits ends it as its text
  decides, and a payload is of the command that was asked for. -/
  decided : ∀ n a f, m.action = .answer n a → m.before.flight? n = some f →
    Session.Fits digest m.before.session m.before.document f →
    (∃ v, m.response = .ended v ∧ Decides f.request.command a v) ∧
      ∀ raw p, a = .text raw → Reply.decode f.request.command raw = .ok (.ok p) →
        p.command = f.job.command
  /-- No payload is ever reported as that of another command. -/
  matched : ∀ phase expected found,
    .report phase (.outage (.malformed (.mismatch expected found))) ∉ m.notices

namespace Session.Finished

variable {digest : Digest} {s s' : Session} {d : Document} {f : Flight} {a : Answer}
variable {notices : List Notice} {v : Verdict}

/-! ## What is reported -/

theorem ne_busy (h : Finished digest s d f a s' notices v) : v ≠ .busy := by
  rintro rfl
  cases h

theorem notices_of_stale (h : Finished digest s d f a s' notices .stale) : notices = [] := by
  cases h <;> rfl

theorem notices_of_failed (h : Finished digest s d f a s' notices .failed) :
    ∃ phase o, notices = [.report phase (.outage o)] := by
  cases h with
  | failed _ _ => exact ⟨_, _, rfl⟩

theorem notices_of_refused (h : Finished digest s d f a s' notices .buildFailed) :
    ∃ phase r, notices = [.report phase (.refused r)] := by
  cases h with
  | refused _ _ => exact ⟨_, _, rfl⟩

/-- No answer is reported as one to another command. -/
theorem mismatch_not_mem (h : Finished digest s d f a s' notices v) (phase : Phase)
    (expected found : Command) :
    .report phase (.outage (.malformed (.mismatch expected found))) ∉ notices := by
  cases h with
  | failed _ hreply =>
    have hne := Answer.ne_mismatch_of_reply hreply expected found
    simp [Ne.symm hne]
  | @applied p s' l _ _ hl =>
    intro hmem
    have hreport : .outage (.malformed (.mismatch expected found)) ∈ l.reports := by
      unfold Landing.notices at hmem
      split at hmem <;> exact (by simpa using hmem : _ ∧ _).1
    exact (takesIn_of_apply hl).reports _ hreport _ rfl
  | _ => simp

/-! ## What decides -/

/-- **Where the flight fits, the text decides.** -/
theorem decides (h : Finished digest s d f a s' notices v) (hfits : Fits digest s d f) :
    Decides f.request.command a v := by
  have hread : ∀ reply, (∃ raw, a = .text raw ∧
      Reply.decode f.command raw = .ok reply) ↔
      a.reply f.command s.config.deadline = .ok reply :=
    fun reply => Answer.reply_eq_ok_iff.symm
  rw [Flight.command_request]
  cases h with
  | outdated hne => exact absurd hfits.epoch hne
  | edited _ hne => exact absurd hfits.fingerprint hne
  | failed _ hreply => constructor <;> simp [hread, hreply]
  | refused _ hreply => constructor <;> simp [hread, hreply]
  | applied _ hreply _ => constructor <;> simp [hread, hreply]

end Session.Finished

namespace Happens

variable {digest : Digest} {m : Moment}

/-- A flight that waits is ended by its answer. -/
theorem ends {n : Nat} {a : Answer} {f : Flight} (h : Happens digest m)
    (ha : m.action = .answer n a) (hf : m.before.flight? n = some f) :
    ∃ v, m.response = .ended v ∧
      m.before.session.Finished digest m.before.document f a m.after.session m.notices v := by
  cases h with
  | answered hf' hfinished =>
    cases ha
    rw [hf] at hf'
    cases hf'
    exact ⟨_, rfl, hfinished⟩
  | unknown hnone =>
    cases ha
    rw [hf] at hnone
    cases hnone
  | moved hp _ =>
    cases ha
    cases hp
  | _ => cases ha

theorem mismatch_not_mem (h : Happens digest m) (phase : Phase)
    (expected found : Command) :
    .report phase (.outage (.malformed (.mismatch expected found))) ∉ m.notices := by
  cases h with
  | answered _ hf => exact hf.mismatch_not_mem phase expected found
  | told => simp [Session.documentChanged]
  | _ => simp

end Happens

namespace Desk

/-- **Whatever is on the desk and whatever happens to it**, a render is
applied or it is as if it had never been. -/
theorem moment_allOrNothing (digest : Digest) (d : Desk) (a : Action) :
    (d.moment digest a).AllOrNothing digest where
  keeps v hv hne := by
    rcases (happens_moment digest d a).of_ended hv with
      ⟨-, -, hnotices, hafter⟩ | ⟨n, a', f, -, -, hfinished, -⟩
    · rw [hnotices, hafter]
      exact ⟨Session.keeps_refl _, by simp⟩
    · obtain ⟨hkeeps, hnotices, -⟩ := hfinished.keeps hne
      exact ⟨hkeeps, hnotices⟩
  silent hv := by
    rcases hv with hv | hv <;> rcases (happens_moment digest d a).of_ended hv with
      ⟨-, -, hnotices, -⟩ | ⟨n, a', f, -, -, hfinished, -⟩
    · exact hnotices
    · exact absurd rfl hfinished.ne_busy
    · exact hnotices
    · exact hfinished.notices_of_stale
  failed hv := by
    rcases (happens_moment digest d a).of_ended hv with
      ⟨-, hbusy, -⟩ | ⟨n, a', f, -, -, hfinished, -⟩
    · cases hbusy
    · exact hfinished.notices_of_failed
  refused hv := by
    rcases (happens_moment digest d a).of_ended hv with
      ⟨-, hbusy, -⟩ | ⟨n, a', f, -, -, hfinished, -⟩
    · cases hbusy
    · exact hfinished.notices_of_refused
  decided n a' f ha hf hfits := by
    obtain ⟨v, hv, hfinished⟩ := (happens_moment digest d a).ends ha hf
    refine ⟨⟨v, hv, hfinished.decides hfits⟩, ?_⟩
    intro raw p _ hp
    rw [Flight.command_request] at hp
    exact Reply.command_of_decode hp
  matched := (happens_moment digest d a).mismatch_not_mem

end Desk

end Marginalia
