import Marginalia.Session.Desk
import Marginalia.Proofs.Session.Flight
import Marginalia.Proofs.Text.Editing

/-!
# Session — runs

`Happens` lists all that one action can do, one case for each way it can
go, and every moment of a run is one of these (`Desk.happens_moment`).
What is so at the start of a run and stays so at every such moment is so
throughout (`Desk.run_induction`); the property may speak of everything
that happened before.

Two things are read off at once. The epoch of a session counts the
changes it was told of (`Desk.epoch_afterAll`), and a document that is
still at its revision is still the same (`Desk.document_afterAll`).
-/

namespace Marginalia

/-- The position that a move of the cursor asks for. -/
def Action.target? (p : Player) : Action → Option Nat
  | .seek position => some position
  | .next => some (p.current.elim 0 (· + 1))
  | .prev => some (p.current.elim 0 (· - 1))
  | _ => none

/-- **All that one action can do**, as the moment that it makes. -/
inductive Happens (digest : Digest) : Moment → Prop
  /-- The document is edited. -/
  | edited {d : Desk} {e : Edit} {document : Document} :
      d.document.apply e = .ok document →
      Happens digest ⟨d, .edit e, [], .edited (.ok document.revision), { d with document }⟩
  /-- An edit does not fit. -/
  | unedited {d : Desk} {e : Edit} {error : EditError} :
      d.document.apply e = .error error →
      Happens digest ⟨d, .edit e, [], .edited (.error error), d⟩
  /-- The session is told of a change. -/
  | told {d : Desk} :
      Happens digest ⟨d, .changed, (d.session.documentChanged d.document).2, .told,
        { d with session := (d.session.documentChanged d.document).1 }⟩
  /-- A render is turned away. -/
  | busy {d : Desk} {r : Render} :
      d.session.start digest d.document r = none →
      Happens digest ⟨d, .start r, [], .ended .busy, d⟩
  /-- A render is started. -/
  | started {d : Desk} {r : Render} {s : Session} {f : Flight} :
      d.session.start digest d.document r = some (s, f) →
      Happens digest ⟨d, .start r, [.call f.request], .waiting d.started,
        ⟨d.document, s, d.started + 1, d.waiting ++ [(d.started, f)]⟩⟩
  /-- An answer comes that nothing waits for. -/
  | unknown {d : Desk} {n : Nat} {a : Answer} :
      d.flight? n = none →
      Happens digest ⟨d, .answer n a, [], .unknownFlight, d⟩
  /-- A flight gets its answer. -/
  | answered {d : Desk} {n : Nat} {a : Answer} {f : Flight} {s : Session}
      {notices : List Notice} {v : Verdict} :
      d.flight? n = some f → d.session.Finished digest d.document f a s notices v →
      Happens digest ⟨d, .answer n a, notices, .ended v,
        ⟨d.document, s, d.started, d.waiting.filter fun w => w.1 ≠ n⟩⟩
  /-- The cursor is moved. -/
  | moved {d : Desk} {a : Action} {position : Nat} {p : Player} :
      a.target? d.session.player = some position → p = d.session.player.seek position →
      Happens digest ⟨d, a, [.stepIndex d.session.phase p.current],
        .step (p.step?.map fun step => step.view.1),
        { d with session := { d.session with player := p } }⟩

namespace Happens

variable {digest : Digest} {m : Moment}

/-- A render ends where it is turned away, or where its flight gets an
answer. -/
theorem of_ended {v : Verdict} (h : Happens digest m)
    (hv : m.response = .ended v) :
    ((∃ r, m.action = .start r) ∧ v = .busy ∧ m.notices = [] ∧ m.after = m.before) ∨
    ∃ n a f, m.action = .answer n a ∧ m.before.flight? n = some f ∧
      m.before.session.Finished digest m.before.document f a m.after.session m.notices v ∧
      m.after = { m.before with
        session := m.after.session
        waiting := m.before.waiting.filter fun w => w.1 ≠ n } := by
  cases h with
  | @busy d r _ =>
    cases hv
    exact Or.inl ⟨⟨r, rfl⟩, rfl, rfl, rfl⟩
  | @answered d n a f _ _ _ hf hfinished =>
    cases hv
    exact Or.inr ⟨n, a, f, rfl, hf, hfinished, rfl⟩
  | _ => cases hv

/-- Nothing but a render asks for an analysis. -/
theorem call_not_mem (h : Happens digest m) (hm : ∀ r, m.action ≠ .start r)
    (request : Request) : .call request ∉ m.notices := by
  cases h with
  | started _ => exact absurd rfl (hm _)
  | answered _ hf => exact hf.call_not_mem request
  | told => simp [Session.documentChanged]
  | _ => simp

end Happens

namespace Desk

variable {digest : Digest} {d : Desk}

/-- A desk with one more flight, which a session waits for. -/
def launch (d : Desk) (s : Session) (f : Flight) : Desk :=
  ⟨d.document, s, d.started + 1, d.waiting ++ [(d.started, f)]⟩

/-- The moment of a start, -/
theorem moment_of_start {r : Render} {s : Session} {f : Flight}
    (h : d.session.start digest d.document r = some (s, f)) :
    d.moment digest (.start r) =
      ⟨d, .start r, [.call f.request], .waiting d.started, d.launch s f⟩ := by
  simp only [moment, act, h, launch]

/-- and that of an answer. -/
theorem moment_of_flight? (digest : Digest) {n : Nat} {f : Flight} (h : d.flight? n = some f)
    (a : Answer) :
    d.moment digest (.answer n a) =
      ⟨d, .answer n a, (d.session.finish digest d.document f a).2.1,
        .ended (d.session.finish digest d.document f a).2.2,
        { d with
          session := (d.session.finish digest d.document f a).1
          waiting := d.waiting.filter fun w => w.1 ≠ n }⟩ := by
  simp only [moment, act, h]

/-- **Every moment is one of these.** -/
theorem happens_moment (digest : Digest) (d : Desk) (a : Action) :
    Happens digest (d.moment digest a) := by
  unfold moment act
  cases a with
  | edit e =>
    cases h : d.document.apply e with
    | ok document => simpa only [Document.edit, h] using .edited h
    | error error => simpa only [Document.edit, h] using .unedited h
  | changed => exact .told
  | start r =>
    cases h : d.session.start digest d.document r with
    | none => simpa only [h] using .busy h
    | some started => simpa only [h] using .started h
  | answer n a =>
    cases h : d.flight? n with
    | none => simpa only [h] using .unknown h
    | some f =>
      simpa only [h] using
        .answered h (Session.finish_finished digest d.session d.document f a)
  | seek position => exact .moved rfl rfl
  | next => exact .moved rfl rfl
  | prev => exact .moved rfl rfl

/-! ## Runs -/

theorem run_append (d : Desk) (xs ys : List Action) :
    d.run digest (xs ++ ys) = d.run digest xs ++ (d.afterAll digest xs).run digest ys := by
  induction xs generalizing d with
  | nil => rfl
  | cons x xs ih => exact congrArg _ (ih _)

theorem afterAll_append (d : Desk) (xs ys : List Action) :
    d.afterAll digest (xs ++ ys) = (d.afterAll digest xs).afterAll digest ys :=
  List.foldl_append

@[simp] theorem run_concat (d : Desk) (xs : List Action) (a : Action) :
    d.run digest (xs ++ [a]) = d.run digest xs ++ [(d.afterAll digest xs).moment digest a] :=
  run_append d xs [a]

@[simp] theorem afterAll_concat (d : Desk) (xs : List Action) (a : Action) :
    d.afterAll digest (xs ++ [a]) = ((d.afterAll digest xs).moment digest a).after :=
  afterAll_append d xs [a]

/-- **What is kept is so throughout a run.** The induction is on the end
of the run, so that the property may speak of all that happened
before. -/
theorem run_induction {P : List Moment → Desk → Prop} (hstart : P [] d)
    (hstep : ∀ past m, Happens digest m → P past m.before → P (past ++ [m]) m.after)
    (actions : List Action) : P (d.run digest actions) (d.afterAll digest actions) := by
  suffices h : ∀ ys xs, P (d.run digest xs) (d.afterAll digest xs) →
      P (d.run digest (xs ++ ys)) (d.afterAll digest (xs ++ ys)) from h actions [] hstart
  intro ys
  induction ys with
  | nil => intro xs h; rwa [List.append_nil]
  | cons y ys ih =>
    intro xs h
    have hxs := ih (xs ++ [y])
    rw [List.append_assoc, run_concat, afterAll_concat] at hxs
    exact hxs (hstep _ _ (happens_moment digest _ y) h)

/-- Where a moment of a run stands: what happened before it is a run, and
so is what happened after it. -/
theorem run_eq_append_cons {actions : List Action} {past later : List Moment} {m : Moment}
    (h : d.run digest actions = past ++ m :: later) :
    ∃ xs a ys, actions = xs ++ a :: ys ∧ past = d.run digest xs ∧
      m = (d.afterAll digest xs).moment digest a ∧ later = m.after.run digest ys := by
  induction actions generalizing d past with
  | nil => exact absurd (congrArg List.length h) (by simp [run])
  | cons a actions ih =>
    cases past with
    | nil =>
      obtain ⟨rfl, rfl⟩ := List.cons.inj h
      exact ⟨[], a, actions, rfl, rfl, rfl, rfl⟩
    | cons x past =>
      obtain ⟨rfl, hrest⟩ := List.cons.inj h
      obtain ⟨xs, b, ys, rfl, rfl, hm, hlater⟩ := ih hrest
      exact ⟨a :: xs, b, ys, rfl, rfl, hm, hlater⟩

/-- And where it ends. -/
theorem run_eq_concat {actions : List Action} {past : List Moment} {m : Moment}
    (h : d.run digest actions = past ++ [m]) :
    ∃ xs a, actions = xs ++ [a] ∧ past = d.run digest xs ∧
      m = (d.afterAll digest xs).moment digest a := by
  obtain ⟨xs, a, ys, rfl, hpast, hm, hys⟩ := run_eq_append_cons h
  cases ys with
  | nil => exact ⟨xs, a, rfl, hpast, hm⟩
  | cons _ _ => cases hys

/-- Nothing else happens in a run. -/
theorem happens_of_mem {actions : List Action} {m : Moment} (h : m ∈ d.run digest actions) :
    Happens digest m := by
  obtain ⟨past, later, hrun⟩ := List.append_of_mem h
  obtain ⟨xs, a, ys, -, -, rfl, -⟩ := run_eq_append_cons hrun
  exact happens_moment digest _ a

/-! ## Epochs and revisions -/

/-- How often a session was told of a change. -/
def changes (ms : List Moment) : Nat := ms.countP fun m => m.action = .changed

@[simp] theorem changes_append (ms ns : List Moment) :
    changes (ms ++ ns) = changes ms + changes ns :=
  List.countP_append

/-- No change was told exactly if none is counted. -/
theorem changes_eq_zero_iff {ms : List Moment} :
    changes ms = 0 ↔ ∀ m ∈ ms, m.action ≠ .changed := by
  simp [changes, List.countP_eq_zero]

/-- **The epoch counts the changes.** -/
theorem epoch_afterAll (digest : Digest) (d : Desk) (actions : List Action) :
    (d.afterAll digest actions).session.epoch =
      d.session.epoch + changes (d.run digest actions) := by
  refine run_induction (P := fun past d' => d'.session.epoch = d.session.epoch + changes past)
    rfl ?_ actions
  intro past m hm ih
  rw [changes_append, ← Nat.add_assoc, ← ih]
  cases hm with
  | told => rfl
  | started h =>
    obtain ⟨-, rfl, -⟩ := Session.start_eq_some h
    rfl
  | answered _ h => exact h.epoch
  | @moved d a position p ha _ =>
    have hne : a ≠ .changed := by
      rintro rfl
      cases ha
    simp [changes, hne]
  | _ => rfl

/-- The document on a desk is what edits have made of it. -/
theorem exists_document_afterAll (digest : Digest) (d : Desk) (actions : List Action) :
    ∃ edits, (d.afterAll digest actions).document = d.document.editAll edits := by
  refine run_induction (P := fun _ d' => ∃ edits, d'.document = d.document.editAll edits)
    ⟨[], rfl⟩ ?_ actions
  rintro past m hm ⟨edits, ih⟩
  cases hm with
  | @edited d' e document he =>
    refine ⟨edits ++ [e], ?_⟩
    rw [Document.editAll_append, ← ih]
    exact (congrArg Prod.fst (Document.edit_of_apply he)).symm
  | _ => exact ⟨edits, ih⟩

/-- **A document at the revision it had is the document it was**, and no
revision comes back. -/
theorem document_afterAll (digest : Digest) (d : Desk) (actions : List Action) :
    (d.afterAll digest actions).document = d.document ∨
      d.document.revision.number < (d.afterAll digest actions).document.revision.number := by
  obtain ⟨edits, hedits⟩ := exists_document_afterAll digest d actions
  rw [hedits]
  exact d.document.editAll_eq_or_lt edits

end Desk

end Marginalia
