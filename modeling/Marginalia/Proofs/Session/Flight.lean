import Marginalia.Session.Basic
import Marginalia.Proofs.Exchange.Reply

/-!
# Session — the two ends of a flight

`Session.start` remembers what the session and the document are like.
`Session.finish` reads the answer, compares the flight with what it
meets, and takes the payload in. `Session.Finished` lists all that can
come of an answer, one case for each way out, and
`Session.finish_finished` says there is no other. One way out that the
definition spells is not among the cases: a payload of another command.
The options of a request name the command, the reply is read as a reply
to that command, and so the payload is of the command of the job
(`Answer.command_of_reply`).
-/

namespace Marginalia

/-- A notice that calls the widget. -/
def Notice.reachesWidget : Notice → Bool
  | .dispatch _ _ | .stepIndex _ _ | .hide _ _ => true
  | .call _ | .report _ _ => false

/-! ## One command all the way -/

@[simp] theorem Job.command_options (j : Job) : j.options.command = j.command := by
  cases j <;> rfl

/-- The request of a flight is for the command of its job. -/
@[simp] theorem Flight.command_request (f : Flight) : f.request.command = f.command :=
  Job.command_options f.job

namespace Answer

variable {c : Command} {deadline : Nat} {a : Answer}

/-- Only a text is a reply. -/
theorem reply_eq_ok_iff {r : Reply} :
    a.reply c deadline = .ok r ↔ ∃ raw, a = .text raw ∧ Reply.decode c raw = .ok r := by
  cases a with
  | text raw =>
    simp only [reply, text.injEq, exists_eq_left']
    cases Reply.decode c raw with
    | ok r' =>
      constructor <;> intro h <;> cases h <;> rfl
    | error m =>
      constructor <;> intro h <;> cases h
  | unreachable reason => simp [reply]
  | silence => simp [reply]

theorem command_of_reply {p : Payload} (h : a.reply c deadline = .ok (.ok p)) :
    p.command = c := by
  obtain ⟨raw, -, hraw⟩ := reply_eq_ok_iff.mp h
  exact Reply.command_of_decode hraw

/-- No outage is a payload of another command. -/
theorem ne_mismatch_of_reply {o : Outage} (h : a.reply c deadline = .error o)
    (expected found : Command) : o ≠ .malformed (.mismatch expected found) := by
  rintro rfl
  cases a with
  | text raw =>
    cases hraw : Reply.decode c raw with
    | ok r =>
      rw [reply, hraw] at h
      cases h
    | error m =>
      rw [reply, hraw] at h
      cases h
      exact Reply.ne_mismatch_of_decode hraw expected found rfl
  | unreachable reason => simp [reply] at h
  | silence => simp [reply] at h

end Answer

namespace Session

variable {digest : Digest} {s s' : Session} {d : Document} {f : Flight} {p : Payload}
variable {l : Landing}

/-! ## The start -/

/-- A render is turned away exactly while another one waits. -/
theorem start_eq_none_iff {r : Render} :
    s.start digest d r = none ↔ ∃ c, s.phase = .requesting c := by
  unfold start
  cases s.phase <;> simp

/-- **What a flight remembers**, and what its start does to the
session. -/
theorem start_eq_some {r : Render} (h : s.start digest d r = some (s', f)) :
    (∀ c, s.phase ≠ .requesting c) ∧ s' = { s with phase := .requesting r.job.command } ∧
      f = ⟨r.job, s.epoch, d.text, d.fingerprint digest, r.hiddenSpans s.config d.text⟩ := by
  unfold start at h
  split at h
  · cases h
  · rename_i hphase
    cases h
    exact ⟨hphase, rfl, rfl⟩

/-! ## Taking a payload in -/

/-- What taking a payload in leaves alone, and what it does to the
store, whichever payload it is. -/
structure TakesIn (s : Session) (d : Document) (f : Flight) (s' : Session) (l : Landing) :
    Prop where
  config : s'.config = s.config
  epoch : s'.epoch = s.epoch
  hidden : s'.hidden = s.hidden
  /-- That there was no reply is not reported. -/
  reports : ∀ r ∈ l.reports, ∀ o, r ≠ .outage o
  /-- Some layers are filled, and the effects say with what. -/
  filled : ∃ layers, layers ≠ [] ∧
    s.store.replaceEach layers f.revision d.map? = (s'.store, l.effects)

theorem takesIn_applyMarking {c : Command} (m : Marking) (hm : m.layers ≠ []) :
    TakesIn s d f (s.applyMarking d f.revision c m).1
      (s.applyMarking d f.revision c m).2 where
  config := rfl
  epoch := rfl
  hidden := rfl
  reports r hr o := by
    obtain ⟨_, -, rfl⟩ := List.mem_map.mp hr
    exact Report.noConfusion
  filled := ⟨m.layers, hm, rfl⟩

theorem takesIn_applyTrace {length : Nat} {raw : RawTrace} :
    TakesIn s d f (s.applyTrace d f.revision length raw).1
      (s.applyTrace d f.revision length raw).2 where
  config := rfl
  epoch := rfl
  hidden := rfl
  reports r hr o := by
    rcases List.mem_append.mp hr with hr | hr <;>
    · obtain ⟨_, -, rfl⟩ := List.mem_map.mp hr
      exact Report.noConfusion
  filled := ⟨[(.markers, _)], List.cons_ne_nil _ _, rfl⟩

theorem takesIn_of_apply (h : s.apply d f p = .ok (s', l)) : TakesIn s d f s' l := by
  unfold apply at h
  split at h
  · cases h
    exact takesIn_applyMarking (Marking.ofFacts _ _) (List.cons_ne_nil _ _)
  · cases h
    exact takesIn_applyMarking (Marking.ofUses _) (List.cons_ne_nil _ _)
  · cases h
    exact takesIn_applyTrace
  · cases h

/-- A payload of the command of the job is taken in. -/
theorem exists_apply (s : Session) (d : Document) (h : p.command = f.command) :
    ∃ s' l, s.apply d f p = .ok (s', l) := by
  obtain ⟨job, epoch, text, fingerprint, hidden⟩ := f
  cases job <;> cases p <;>
    first
    | exact ⟨_, _, rfl⟩
    | cases h

/-- **What is taken in is of the kind that the job asks for.** -/
theorem apply_cases (h : s.apply d f p = .ok (s', l)) :
    (∃ view units, f.job = .permissions view ∧ p = .permissions units ∧
      s.applyMarking d f.revision .permissions (Marking.ofFacts view units) = (s', l)) ∨
    (∃ units, f.job = .boundaries ∧ p = .boundaries units ∧
      s.applyMarking d f.revision .boundaries (Marking.ofUses units) = (s', l)) ∨
    ∃ shouldFail raw, f.job = .interpreter shouldFail ∧ p = .interpreter raw ∧
      s.applyTrace d f.revision f.text.length raw = (s', l) := by
  unfold apply at h
  split at h
  · rename_i view units hjob
    exact Or.inl ⟨view, units, hjob, rfl, Except.ok.inj h⟩
  · rename_i units hjob
    exact Or.inr (Or.inl ⟨units, hjob, rfl, Except.ok.inj h⟩)
  · rename_i shouldFail raw hjob
    exact Or.inr (Or.inr ⟨shouldFail, raw, hjob, rfl, Except.ok.inj h⟩)
  · cases h

/-- Some layer is always told of. -/
theorem TakesIn.effects_ne_nil (h : TakesIn s d f s' l) : l.effects ≠ [] := by
  obtain ⟨layers, hne, hfilled⟩ := h.filled
  cases layers with
  | nil => exact absurd rfl hne
  | cons entry layers =>
    rw [← (Prod.mk.inj hfilled).2]
    exact List.cons_ne_nil _ _

/-! ## The ways out -/

/-- A flight still fits what it meets: the session was told of no change
since the start, and the document has the fingerprint it had. -/
structure Fits (digest : Digest) (s : Session) (d : Document) (f : Flight) : Prop where
  epoch : s.epoch = f.epoch
  fingerprint : f.fingerprint = d.fingerprint digest

/-- A flight that fits is of the revision that is there. -/
theorem Fits.revision (h : Fits digest s d f) : f.revision = d.revision :=
  congrArg Fingerprint.revision h.fingerprint

/-- **All that the answer to a flight can do.** -/
inductive Finished (digest : Digest) (s : Session) (d : Document) (f : Flight) (a : Answer) :
    Session → List Notice → Verdict → Prop
  /-- The session was told of a change since the start: nothing happens. -/
  | outdated :
      s.epoch ≠ f.epoch → Finished digest s d f a s [] .stale
  /-- The document changed, and the session was not told. -/
  | edited :
      s.epoch = f.epoch → f.fingerprint ≠ d.fingerprint digest →
      Finished digest s d f a s.rest [] .stale
  /-- There is no reply. -/
  | failed {o : Outage} :
      Fits digest s d f → a.reply f.command s.config.deadline = .error o →
      Finished digest s d f a s.rest [.report (.failed f.command) (.outage o)] .failed
  /-- The reply is a refusal. -/
  | refused {r : Refusal} :
      Fits digest s d f → a.reply f.command s.config.deadline = .ok (.error r) →
      Finished digest s d f a s.rest [.report (.applying f.command) (.refused r)] .buildFailed
  /-- The reply brings a payload, which is taken in and made known. -/
  | applied {p : Payload} {s' : Session} {l : Landing} :
      Fits digest s d f → a.reply f.command s.config.deadline = .ok (.ok p) →
      s.apply d f p = .ok (s', l) →
      Finished digest s d f a
        { s' with hidden := s'.hidden ++ fresh s'.hidden f.hidden }.rest
        (l.notices (.applying f.command) f.revision (fresh s'.hidden f.hidden))
        (.applied ⟨f.revision, l.applied, l.failed⟩)

/-- An answer to a flight that fits is read, and done with as it says. -/
theorem finish_of_fits (h : Fits digest s d f) (a : Answer) :
    s.finish digest d f a =
      match a.reply f.request.command s.config.deadline with
      | .error o => s.fail f o
      | .ok (.error r) => (s.rest, [.report (.applying f.command) (.refused r)], .buildFailed)
      | .ok (.ok payload) => s.land d f payload := by
  have hagrees : f.fingerprint.agrees (d.fingerprint digest) = true := by
    simpa [Fingerprint.agrees] using h.fingerprint
  exact (if_neg (not_not_intro h.epoch)).trans (if_pos hagrees)

/-- **There is no other way out.** -/
theorem finish_finished (digest : Digest) (s : Session) (d : Document) (f : Flight)
    (a : Answer) :
    Finished digest s d f a (s.finish digest d f a).1 (s.finish digest d f a).2.1
      (s.finish digest d f a).2.2 := by
  by_cases hepoch : s.epoch = f.epoch
  · by_cases hprint : f.fingerprint = d.fingerprint digest
    · have hfits : Fits digest s d f := ⟨hepoch, hprint⟩
      rw [finish_of_fits hfits, Flight.command_request]
      cases hreply : a.reply f.command s.config.deadline with
      | error o => exact .failed hfits hreply
      | ok reply =>
        cases reply with
        | error r => exact .refused hfits hreply
        | ok p =>
          -- the payload is of the command of the job, so it is not turned away
          obtain ⟨s', l, hl⟩ := exists_apply s d (Answer.command_of_reply hreply)
          simp only [land, hl]
          exact .applied hfits hreply hl
    · rw [finish, if_neg (not_not_intro hepoch),
        if_neg (by simpa [Fingerprint.agrees] using hprint)]
      exact .edited hepoch hprint
  · rw [finish, if_pos hepoch]
    exact .outdated hepoch

/-! ## What an answer leaves alone -/

/-- Of what a session shows nothing is other than it was: the layers and
their generations, the execution and its cursor, how it ended, what is
hidden, and the epoch. -/
structure Keeps (s s' : Session) : Prop where
  store : s'.store = s.store
  player : s'.player = s.player
  ending : s'.ending = s.ending
  hidden : s'.hidden = s.hidden
  epoch : s'.epoch = s.epoch

theorem keeps_refl (s : Session) : Keeps s s := ⟨rfl, rfl, rfl, rfl, rfl⟩

theorem keeps_rest (s : Session) : Keeps s s.rest := ⟨rfl, rfl, rfl, rfl, rfl⟩

namespace Finished

variable {a : Answer} {notices : List Notice} {v : Verdict}

/-- No answer counts as a change of the document. -/
theorem epoch (h : Finished digest s d f a s' notices v) : s'.epoch = s.epoch := by
  cases h with
  | applied _ _ hl => exact (takesIn_of_apply hl).epoch
  | _ => rfl

/-- An answer that is outdated does nothing at all. -/
theorem of_outdated (h : Finished digest s d f a s' notices v) (hne : s.epoch ≠ f.epoch) :
    s' = s ∧ notices = [] ∧ v = .stale := by
  cases h with
  | outdated _ => exact ⟨rfl, rfl, rfl⟩
  | edited hepoch _ => exact absurd hepoch hne
  | failed hfits _ => exact absurd hfits.epoch hne
  | refused hfits _ => exact absurd hfits.epoch hne
  | applied hfits _ _ => exact absurd hfits.epoch hne

/-- Any other leaves the session at rest. -/
theorem phase (h : Finished digest s d f a s' notices v) (hepoch : s.epoch = f.epoch) :
    s'.phase = .idle := by
  cases h with
  | outdated hne => exact absurd hepoch hne
  | _ => rfl

/-- No answer asks for an analysis. -/
theorem call_not_mem (h : Finished digest s d f a s' notices v) (request : Request) :
    .call request ∉ notices := by
  cases h with
  | @applied p s' l _ _ _ =>
    unfold Landing.notices
    split <;> simp
  | _ => simp

/-- **Only a payload that is applied is seen.** Whatever else comes of an
answer keeps what is shown and leaves the widget alone. -/
theorem keeps (h : Finished digest s d f a s' notices v) (hv : ∀ x, v ≠ .applied x) :
    Keeps s s' ∧ (∀ n ∈ notices, n.reachesWidget = false) ∧
      (v = .stale ∨ v = .failed ∨ v = .buildFailed) := by
  cases h with
  | outdated _ => exact ⟨keeps_refl s, by simp, Or.inl rfl⟩
  | edited _ _ => exact ⟨keeps_rest s, by simp, Or.inl rfl⟩
  | failed _ _ => exact ⟨keeps_rest s, by simp [Notice.reachesWidget], Or.inr (Or.inl rfl)⟩
  | refused _ _ => exact ⟨keeps_rest s, by simp [Notice.reachesWidget], Or.inr (Or.inr rfl)⟩
  | applied _ _ _ => exact absurd rfl (hv _)

/-- **What is applied still fits**, and the widget hears of it. -/
theorem fits {x : Summary} (h : Finished digest s d f a s' notices (.applied x)) :
    Fits digest s d f ∧ ∃ n ∈ notices, n.reachesWidget = true := by
  cases h with
  | @applied p s' l hfits _ hl =>
    refine ⟨hfits, .dispatch (.applying f.command) ⟨f.revision, l.effects⟩, ?_, rfl⟩
    have hne := (takesIn_of_apply hl).effects_ne_nil
    simp [Landing.notices, hne]

end Finished

end Session

end Marginalia
