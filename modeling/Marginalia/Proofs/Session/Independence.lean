import Marginalia.Proofs.Session.Mirror
import Marginalia.Proofs.Session.Waiting
import Mathlib.Data.List.Nodup

/-!
# Session — renders of different layers

The reply to a render does the same whatever the session shows: it fills
the same layers, puts the same execution in the player, reports the same
and ends the same way. All of this is an `Imprint`, and what the session
becomes is the imprint put on it (`Imprint.onto`). Only which spans are
still to be hidden depends on the session, and together two renders hide
the same ones in either order (`perm_fresh`).

An execution fills the markers and nothing else, the other commands fill
the other layers and leave the player alone (`Imprint.Of`). So imprints
of the one and of the other kind can be put on in any order
(`Imprint.onto_comm`), and the two renders are independent, at any point
at which no render is waited for (`Desk.AtRest.independent`).
-/

namespace Marginalia

open Replay (reports)

/-! ## What is hidden, and how renders end -/

/-- The span that a notice hides. -/
def Notice.span? : Notice → Option Span
  | .hide _ span => some span
  | _ => none

/-- The spans that are hidden, in order. -/
def hides (notices : List Notice) : List Span := notices.filterMap Notice.span?

/-- How a render ended, where it did. -/
def Response.verdict? : Response → Option Verdict
  | .ended v => some v
  | _ => none

/-- How the renders of a run ended, in order. -/
def verdicts (run : List Moment) : List Verdict :=
  run.filterMap fun m => m.response.verdict?

@[simp] theorem hides_append (ns ms : List Notice) : hides (ns ++ ms) = hides ns ++ hides ms :=
  List.filterMap_append

/-- Of what a landing makes known, the spans are those that it hides. -/
theorem hides_landing (l : Landing) (phase : Phase) (revision : Revision) (spans : List Span) :
    hides (l.notices phase revision spans) = spans := by
  simp [hides, filterMap_landing, Notice.span?]

/-! ## Spans that were not seen before -/

section fresh

variable {seen spans spans' : List Span} {span : Span}

@[simp] theorem mem_fresh : span ∈ fresh seen spans ↔ span ∈ spans ∧ span ∉ seen := by
  induction spans generalizing seen with
  | nil => simp [fresh]
  | cons span' spans ih =>
    rw [fresh]
    split
    · rename_i hseen
      have hne : span ∉ seen → span ≠ span' := fun hnew hsame => hnew (hsame ▸ hseen)
      rw [ih, List.mem_cons]
      tauto
    · rename_i hunseen
      have hnew : span = span' → span ∉ seen := fun hsame => hsame ▸ hunseen
      simp only [List.mem_cons, ih, not_or]
      tauto

theorem nodup_fresh (seen spans : List Span) : (fresh seen spans).Nodup := by
  induction spans generalizing seen with
  | nil => exact List.nodup_nil
  | cons span spans ih =>
    rw [fresh]
    split
    · exact ih seen
    · exact List.nodup_cons.mpr ⟨by simp, ih (span :: seen)⟩

/-- It does not matter in which order they were seen, or how often. -/
theorem fresh_congr {seen seen' : List Span} (h : ∀ span, span ∈ seen ↔ span ∈ seen')
    (spans : List Span) : fresh seen spans = fresh seen' spans := by
  induction spans generalizing seen seen' with
  | nil => rfl
  | cons span spans ih =>
    have hmore : ∀ span', span' ∈ span :: seen ↔ span' ∈ span :: seen' := by
      simp only [List.mem_cons, h, implies_true]
    simp only [fresh, h span, ih h, ih hmore]

/-- What is new of more spans is new after those before. -/
theorem fresh_append (seen spans spans' : List Span) :
    fresh seen (spans ++ spans') =
      fresh seen spans ++ fresh (seen ++ fresh seen spans) spans' := by
  induction spans generalizing seen with
  | nil => simp [fresh]
  | cons span spans ih =>
    rw [List.cons_append, fresh, fresh]
    split
    · exact ih seen
    · -- the recursion puts a new span before those seen, a session after them
      have hsame : ∀ span', span' ∈ span :: seen ++ fresh (span :: seen) spans ↔
          span' ∈ seen ++ span :: fresh (span :: seen) spans := by
        intro span'
        simp only [List.cons_append, List.mem_cons, List.mem_append]
        tauto
      rw [ih, fresh_congr hsame, List.cons_append]

/-- **Spans in another order are new in another order.** -/
theorem perm_fresh (h : spans.Perm spans') (seen : List Span) :
    (fresh seen spans).Perm (fresh seen spans') := by
  -- no span is there twice, so it is enough to compare the members
  rw [List.perm_ext_iff_of_nodup (nodup_fresh _ _) (nodup_fresh _ _)]
  simp only [mem_fresh, h.mem_iff, implies_true]

end fresh

/-! ## Sessions that are alike -/

/-- **Sessions that show the same** and hide the same, whatever came
first. -/
structure Session.Alike (s t : Session) : Prop where
  config : s.config = t.config
  phase : s.phase = t.phase
  epoch : s.epoch = t.epoch
  /-- The layers and their generations. -/
  store : s.store = t.store
  /-- The execution and the cursor in it. -/
  player : s.player = t.player
  ending : s.ending = t.ending
  hidden : s.hidden.Perm t.hidden

/-- Desks with the same document and flights, and with sessions that are
alike. -/
structure Desk.Alike (d d' : Desk) : Prop where
  document : d.document = d'.document
  session : d.session.Alike d'.session
  started : d.started = d'.started
  waiting : d.waiting = d'.waiting

/-! ## Imprints -/

/-- **All that the answer to a render does**, whatever the session
shows. -/
structure Imprint where
  /-- The layers that are filled. -/
  layers : List (Layer × List Decoration)
  /-- The execution that is shown, and how it ended. -/
  execution : Option (Player × Ending)
  /-- What is hidden, unless it is already. -/
  spans : List Span
  reports : List Report
  verdict : Verdict

namespace Imprint

/-- The session that an imprint is put on. -/
def onto (x : Imprint) (d : Document) (s : Session) : Session :=
  { s with
    phase := .idle
    store := (s.store.replaceEach x.layers d.revision d.map?).1
    player := x.execution.elim s.player Prod.fst
    ending := x.execution.elim s.ending fun e => some e.2
    hidden := s.hidden ++ fresh s.hidden x.spans }

/-- **An imprint stays with its command**: an execution fills no layer
but the markers, and whatever is no execution leaves them and the player
alone. -/
structure Of (x : Imprint) (c : Command) : Prop where
  markers : c = .interpreter → ∀ l ∈ x.layers.map Prod.fst, l = .markers
  others : c ≠ .interpreter → .markers ∉ x.layers.map Prod.fst ∧ x.execution = none

variable {x y : Imprint} {c c' : Command} {d : Document} {s : Session}

/-- Without an execution, markers and player are left as they are. -/
theorem Of.onto_others (h : x.Of c) (hc : c ≠ .interpreter) (d : Document) (s : Session) :
    (x.onto d s).store.markers = s.store.markers ∧ (x.onto d s).player = s.player ∧
      (x.onto d s).ending = s.ending := by
  obtain ⟨hmarkers, hexecution⟩ := h.others hc
  refine ⟨Store.slot_replaceEach_of_notMem hmarkers s.store d.revision d.map?, ?_, ?_⟩
  · rw [onto, hexecution]
    rfl
  · rw [onto, hexecution]
    rfl

/-- And an execution leaves the other layers as they are. -/
theorem Of.onto_interpreter (h : x.Of c) (hc : c = .interpreter) (d : Document) (s : Session)
    {l : Layer} (hl : l ≠ .markers) : (x.onto d s).store.slot l = s.store.slot l :=
  Store.slot_replaceEach_of_notMem (fun hmem => hl (h.markers hc l hmem)) s.store d.revision
    d.map?

/-- **Imprints of different layers can be put on in any order.** -/
theorem onto_comm (hx : x.Of c) (hc : c ≠ .interpreter) (hy : y.Of c') (hc' : c' = .interpreter)
    (d : Document) (s : Session) :
    (y.onto d (x.onto d s)).Alike (x.onto d (y.onto d s)) := by
  obtain ⟨hmarkers, hexecution⟩ := hx.others hc
  have hlayers : ∀ l ∈ x.layers.map Prod.fst, l ∉ y.layers.map Prod.fst := by
    intro l hl hl'
    rw [hy.markers hc' l hl'] at hl
    exact hmarkers hl
  refine ⟨rfl, rfl, rfl, Store.replaceEach_comm hlayers _ _ _, ?_, ?_, ?_⟩
  · simp only [onto, hexecution, Option.elim_none]
  · simp only [onto, hexecution, Option.elim_none]
  · simp only [onto, List.append_assoc, ← fresh_append]
    exact (perm_fresh List.perm_append_comm s.hidden).append_left s.hidden

/-- The imprint of an answer that brings no payload. -/
def quiet (r : Report) (v : Verdict) : Imprint := ⟨[], none, [], [r], v⟩

theorem of_quiet (r : Report) (v : Verdict) (c : Command) : (quiet r v).Of c where
  markers _ _ hl := absurd hl List.not_mem_nil
  others _ := ⟨List.not_mem_nil, rfl⟩

/-- The imprint of a marking. -/
def ofMarking (c : Command) (m : Marking) (spans : List Span) (revision : Revision) : Imprint :=
  ⟨m.layers, none, spans, m.refused.map fun (unit, r) => .body c unit r,
    .applied ⟨revision, m.applied, m.refused.length⟩⟩

theorem of_ofMarking {m : Marking} {spans : List Span} {revision : Revision}
    (hm : .markers ∉ m.layers.map Prod.fst) (hc : c ≠ .interpreter) :
    (ofMarking c m spans revision).Of c where
  markers h := absurd h hc
  others _ := ⟨hm, rfl⟩

/-- The imprint of an execution, as it is shown in a document. -/
def ofTrace (t : Trace) (d : Document) (spans : List Span) : Imprint :=
  let positions := t.renderable d.length
  let player := match positions.head? with
    | some first => (Player.ofTrace t).seek first
    | none => .empty
  ⟨[(.markers, Marking.markers t positions)], some (player, t.ending), spans,
    t.rejected.map .rejected ++ t.danglingPointers.map .dangling,
    .applied ⟨d.revision, positions.length, t.rejected.length⟩⟩

theorem of_ofTrace (t : Trace) (d : Document) (spans : List Span) :
    (ofTrace t d spans).Of .interpreter where
  markers _ _ hl := List.mem_singleton.mp hl
  others h := absurd rfl h

/-- **An answer leaves an imprint** on the session that it finds. -/
structure Left (x : Imprint) (d : Document) (s s' : Session) (notices : List Notice)
    (v : Verdict) : Prop where
  session : s' = x.onto d s
  hides : Marginalia.hides notices = fresh s.hidden x.spans
  reports : Replay.reports notices = x.reports
  verdict : v = x.verdict

/-- **So it does wherever the render is started**, with these settings and
in this document. -/
def LeftBy (x : Imprint) (digest : Digest) (config : Config) (d : Document) (r : Render)
    (a : Answer) : Prop :=
  ∀ s s' f, s.config = config → s.start digest d r = some (s', f) →
    x.Left d s (s'.finish digest d f a).1 (s'.finish digest d f a).2.1
      (s'.finish digest d f a).2.2

/-- Whatever brings no payload leaves its report. -/
theorem left_quiet (d : Document) (s : Session) (phase : Phase) (r : Report) (v : Verdict) :
    (quiet r v).Left d s s.rest [.report phase r] v where
  session := by
    simp only [onto, quiet, Session.rest, fresh, List.append_nil]
    rfl
  hides := rfl
  reports := rfl
  verdict := rfl

end Imprint

/-! ## Answers -/

namespace Session

variable {digest : Digest} {s s' t : Session} {d : Document} {f : Flight} {r : Render}
variable {x : Imprint} {p : Payload} {l : Landing}

/-- What is done with the answer to a flight that has just been
started. -/
theorem finish_started (h : s.start digest d r = some (s', f)) (a : Answer) :
    s'.finish digest d f a =
      match a.reply r.job.command s.config.deadline with
      | .error o => s'.fail f o
      | .ok (.error refusal) =>
        (s'.rest, [.report (.applying f.command) (.refused refusal)], .buildFailed)
      | .ok (.ok payload) => s'.land d f payload := by
  obtain ⟨-, rfl, rfl⟩ := start_eq_some h
  have hfits : Fits digest { s with phase := .requesting r.job.command } d
      ⟨r.job, s.epoch, d.text, d.fingerprint digest, r.hiddenSpans s.config d.text⟩ := ⟨rfl, rfl⟩
  have hread := finish_of_fits hfits a
  rw [Flight.command_request] at hread
  exact hread

variable {config : Config} {a : Answer}

/-- That there is no reply leaves its report, -/
theorem leftBy_of_outage {o : Outage}
    (h : a.reply r.job.command config.deadline = .error o) :
    (Imprint.quiet (.outage o) .failed).LeftBy digest config d r a := by
  rintro s s' f rfl hstart
  rw [finish_started hstart, h]
  obtain ⟨-, rfl, rfl⟩ := start_eq_some hstart
  exact Imprint.left_quiet d s _ _ _

/-- and so does a refusal. -/
theorem leftBy_of_refusal {refusal : Refusal}
    (h : a.reply r.job.command config.deadline = .ok (.error refusal)) :
    (Imprint.quiet (.refused refusal) .buildFailed).LeftBy digest config d r a := by
  rintro s s' f rfl hstart
  rw [finish_started hstart, h]
  obtain ⟨-, rfl, rfl⟩ := start_eq_some hstart
  exact Imprint.left_quiet d s _ _ _

/-- A payload leaves what it is taken in as. -/
theorem leftBy_of_payload (h : a.reply r.job.command config.deadline = .ok (.ok p))
    (hspans : r.hiddenSpans config d.text = x.spans)
    (htaken : ∀ (s : Session) (epoch : Nat), ∃ t l,
      s.apply d ⟨r.job, epoch, d.text, d.fingerprint digest, x.spans⟩ p = .ok (t, l) ∧
        { t with hidden := s.hidden ++ fresh s.hidden x.spans }.rest = x.onto d s ∧
        t.hidden = s.hidden ∧ l.reports = x.reports ∧
        .applied ⟨d.revision, l.applied, l.failed⟩ = x.verdict) :
    x.LeftBy digest config d r a := by
  rintro s s' f rfl hstart
  rw [finish_started hstart, h]
  obtain ⟨-, rfl, rfl⟩ := start_eq_some hstart
  rw [hspans]
  obtain ⟨t, l, hl, ht, hhidden, hreports, hverdict⟩ :=
    htaken { s with phase := .requesting r.job.command } s.epoch
  simp only [land, hl, hhidden]
  exact ⟨ht, hides_landing _ _ _ _, (Replay.reports_landing _ _ _ _).trans hreports, hverdict⟩

/-- **An answer leaves one imprint on whatever session it finds.** -/
theorem exists_imprint (digest : Digest) (config : Config) (d : Document) (r : Render)
    (a : Answer) : ∃ x : Imprint, x.Of r.job.command ∧ x.LeftBy digest config d r a := by
  cases hreply : a.reply r.job.command config.deadline with
  | error o => exact ⟨_, Imprint.of_quiet _ _ _, leftBy_of_outage hreply⟩
  | ok reply =>
    cases reply with
    | error refusal => exact ⟨_, Imprint.of_quiet _ _ _, leftBy_of_refusal hreply⟩
    | ok payload =>
      -- the payload is of the command of the job
      have hcommand := Answer.command_of_reply hreply
      obtain ⟨spans, hspans⟩ : ∃ spans, r.hiddenSpans config d.text = spans := ⟨_, rfl⟩
      obtain ⟨job, lines⟩ := r
      cases job with
      | permissions view =>
        cases payload with
        | permissions units =>
          exact ⟨.ofMarking .permissions (Marking.ofFacts view units) spans d.revision,
            Imprint.of_ofMarking (by simp [Marking.ofFacts]) (by decide),
            leftBy_of_payload hreply hspans fun s _ => ⟨_, _, rfl, rfl, rfl, rfl, rfl⟩⟩
        | _ => cases hcommand
      | boundaries =>
        cases payload with
        | boundaries units =>
          exact ⟨.ofMarking .boundaries (Marking.ofUses units) spans d.revision,
            Imprint.of_ofMarking (by simp [Marking.ofUses]) (by decide),
            leftBy_of_payload hreply hspans fun s _ => ⟨_, _, rfl, rfl, rfl, rfl, rfl⟩⟩
        | _ => cases hcommand
      | interpreter shouldFail =>
        cases payload with
        | interpreter raw =>
          exact ⟨.ofTrace (Trace.ofRaw raw d.text.length) d spans, Imprint.of_ofTrace _ _ _,
            leftBy_of_payload hreply hspans fun s _ => ⟨_, _, rfl, rfl, rfl, rfl, rfl⟩⟩
        | _ => cases hcommand

end Session

/-! ## Renders in turn -/

namespace Desk

/-- Renders one after the other, each with the answer that it gets before
the next is asked for. Their flights are numbered from `n` on. -/
def inTurn (n : Nat) : List (Render × Answer) → List Action
  | [] => []
  | (r, a) :: renders => .start r :: .answer n a :: inTurn (n + 1) renders

/-- **A desk at rest**: the session waits for no answer, and the next
flight gets a number that no flight waits under. -/
structure AtRest (d : Desk) : Prop where
  phase : d.session.phase = .idle
  numbers : ∀ w ∈ d.waiting, w.1 < d.started

variable {digest : Digest} {d : Desk} {r : Render} {a : Answer} {x : Imprint}

/-- Whatever happened before, a desk is at rest where its session is. -/
theorem atRest_afterAll {config : Config} {text : String} {actions : List Action}
    (h : ((initial config text).afterAll digest actions).session.phase = .idle) :
    ((initial config text).afterAll digest actions).AtRest where
  phase := h
  numbers _ hw := (Accounted.afterAll digest config text actions).lt_started hw

/-- The desk that an imprint is left on. -/
def leave (d : Desk) (x : Imprint) : Desk :=
  { d with session := x.onto d.document d.session, started := d.started + 1 }

theorem AtRest.leave (h : d.AtRest) (x : Imprint) : (d.leave x).AtRest where
  phase := rfl
  numbers w hw := Nat.lt_succ_of_lt (h.numbers w hw)

/-! ### One of them -/

/-- At a desk at rest the flight is found under its number, -/
theorem AtRest.flight?_launch (h : d.AtRest) (s : Session) (f : Flight) :
    (d.launch s f).flight? d.started = some f := by
  have hfree : (d.waiting.find? fun w => w.1 = d.started) = none := by
    rw [List.find?_eq_none]
    intro w hw
    have hne := Nat.ne_of_lt (h.numbers w hw)
    simpa using hne
  simp [flight?, launch, List.find?_append, hfree]

/-- and it alone. -/
theorem AtRest.filter_launch (h : d.AtRest) (s : Session) (f : Flight) :
    ((d.launch s f).waiting.filter fun w => w.1 ≠ d.started) = d.waiting := by
  have hkept : (d.waiting.filter fun w => w.1 ≠ d.started) = d.waiting := by
    rw [List.filter_eq_self]
    intro w hw
    have hne := Nat.ne_of_lt (h.numbers w hw)
    simpa using hne
  rw [launch, List.filter_append, hkept]
  simp

/-- **The turn of a render**: the moments at which it is started and
answered, at which its imprint is left, and after which the others take
their turns. -/
structure Turn (digest : Digest) (d : Desk) (r : Render × Answer) (x : Imprint)
    (start finish : Moment) : Prop where
  run : ∀ renders, d.run digest (inTurn d.started (r :: renders)) =
    start :: finish :: (d.leave x).run digest (inTurn (d.leave x).started renders)
  after : ∀ renders, d.afterAll digest (inTurn d.started (r :: renders)) =
    (d.leave x).afterAll digest (inTurn (d.leave x).started renders)
  /-- The start makes known nothing but the request. -/
  called : ∃ request n, start.notices = [.call request] ∧ start.response = .waiting n
  ended : finish.response = .ended x.verdict
  hides : hides finish.notices = fresh d.session.hidden x.spans
  reports : reports finish.notices = x.reports

/-- **A render takes its turn at a desk at rest.** -/
theorem AtRest.exists_turn (h : d.AtRest)
    (hx : x.LeftBy digest d.session.config d.document r a) :
    ∃ start finish, Turn digest d (r, a) x start finish := by
  obtain ⟨s, f, hstart⟩ : ∃ s f, d.session.start digest d.document r = some (s, f) := by
    rw [Session.start, h.phase]
    exact ⟨_, _, rfl⟩
  have hleft := hx d.session s f rfl hstart
  have hstarted := moment_of_start hstart
  have hanswered := moment_of_flight? digest (h.flight?_launch s f) a
  -- nothing else has the number, so the answer is to this flight
  have hlaunched : (d.moment digest (.start r)).after = d.launch s f := by
    rw [hstarted]
  have hafter : ((d.launch s f).moment digest (.answer d.started a)).after = d.leave x := by
    rw [hanswered, h.filter_launch]
    simp only [launch, hleft.session]
    rfl
  refine ⟨d.moment digest (.start r), (d.launch s f).moment digest (.answer d.started a), ?_, ?_,
    ⟨f.request, d.started, ?_, ?_⟩, ?_, ?_, ?_⟩
  · intro renders
    rw [inTurn, Desk.run, Desk.run, hlaunched, hafter]
    rfl
  · intro renders
    rw [inTurn, afterAll, List.foldl_cons, List.foldl_cons, hlaunched, hafter]
    rfl
  · rw [hstarted]
  · rw [hstarted]
  · rw [hanswered]
    exact congrArg Response.ended hleft.verdict
  · rw [hanswered]
    exact hleft.hides
  · rw [hanswered]
    exact hleft.reports

/-! ### All of them -/

/-- **What renders in turn do**, if these are the imprints of their
answers. -/
structure InTurn (digest : Digest) (d : Desk) (renders : List (Render × Answer))
    (xs : List Imprint) : Prop where
  after : d.afterAll digest (inTurn d.started renders) = xs.foldl leave d
  verdicts : verdicts (d.run digest (inTurn d.started renders)) = xs.map Imprint.verdict
  hides : hides (told (d.run digest (inTurn d.started renders))) =
    fresh d.session.hidden (xs.flatMap Imprint.spans)
  reports : reports (told (d.run digest (inTurn d.started renders))) =
    xs.flatMap Imprint.reports

/-- **At a desk at rest renders in turn leave their imprints**, one after
the other. -/
theorem AtRest.inTurn (h : d.AtRest) {renders : List (Render × Answer)} {xs : List Imprint}
    (hxs : List.Forall₂ (fun r x => x.LeftBy digest d.session.config d.document r.1 r.2)
      renders xs) :
    InTurn digest d renders xs := by
  induction renders generalizing d xs with
  | nil =>
    cases hxs
    exact ⟨rfl, rfl, rfl, rfl⟩
  | cons r renders ih =>
    cases hxs with
    | @cons _ x _ xs hx hxs =>
      obtain ⟨start, finish, hturn⟩ := h.exists_turn hx
      -- the others find a desk at rest again, with the same settings and document
      have hturns := ih (h.leave x) hxs
      obtain ⟨request, n, hcalled, hwaits⟩ := hturn.called
      refine ⟨?_, ?_, ?_, ?_⟩
      · exact (hturn.after renders).trans hturns.after
      · simp only [hturn.run, verdicts, List.filterMap_cons, hwaits, hturn.ended]
        exact congrArg _ hturns.verdicts
      · rw [hturn.run, told_cons, told_cons, hides_append, hides_append, hcalled, hturn.hides,
          hturns.hides, List.flatMap_cons, fresh_append]
        rfl
      · rw [hturn.run, told_cons, told_cons, Replay.reports_append, Replay.reports_append, hcalled,
          hturn.reports, hturns.reports, List.flatMap_cons]
        rfl

/-- **Renders that are independent**: one that is no execution, and one
that is. -/
structure Independent (digest : Digest) (d : Desk) (r q : Render × Answer) : Prop where
  /-- Each ends as it does in the other order. -/
  ended : ∃ v w, verdicts (d.run digest (inTurn d.started [r, q])) = [v, w] ∧
    verdicts (d.run digest (inTurn d.started [q, r])) = [w, v]
  /-- Either way the same is shown, -/
  after : (d.afterAll digest (inTurn d.started [r, q])).Alike
    (d.afterAll digest (inTurn d.started [q, r]))
  /-- the same spans are hidden, -/
  hides : (hides (told (d.run digest (inTurn d.started [r, q])))).Perm
    (hides (told (d.run digest (inTurn d.started [q, r]))))
  /-- and the same is reported. -/
  reports : (reports (told (d.run digest (inTurn d.started [r, q])))).Perm
    (reports (told (d.run digest (inTurn d.started [q, r]))))
  /-- The one leaves the markers, the execution and its cursor alone, -/
  markers : (d.afterAll digest (inTurn d.started [r])).session.store.markers =
    d.session.store.markers
  player : (d.afterAll digest (inTurn d.started [r])).session.player = d.session.player
  ending : (d.afterAll digest (inTurn d.started [r])).session.ending = d.session.ending
  /-- and the other every layer but the markers. -/
  slot : ∀ l, l ≠ .markers →
    (d.afterAll digest (inTurn d.started [q])).session.store.slot l = d.session.store.slot l

/-- **Renders of different layers are independent**, whatever is shown
and however they end. -/
theorem AtRest.independent (h : d.AtRest) {r q : Render} (hr : r.job.command ≠ .interpreter)
    (hq : q.job.command = .interpreter) (digest : Digest) (a b : Answer) :
    Independent digest d (r, a) (q, b) := by
  obtain ⟨x, hx, hrx⟩ := Session.exists_imprint digest d.session.config d.document r a
  obtain ⟨y, hy, hqy⟩ := Session.exists_imprint digest d.session.config d.document q b
  have hfirst : InTurn digest d [(r, a), (q, b)] [x, y] := h.inTurn (.cons hrx (.cons hqy .nil))
  have hlast : InTurn digest d [(q, b), (r, a)] [y, x] := h.inTurn (.cons hqy (.cons hrx .nil))
  have hr' : InTurn digest d [(r, a)] [x] := h.inTurn (.cons hrx .nil)
  have hq' : InTurn digest d [(q, b)] [y] := h.inTurn (.cons hqy .nil)
  have hswap : [x, y].Perm [y, x] := .swap y x []
  obtain ⟨hmarkers, hplayer, hending⟩ := hx.onto_others hr d.document d.session
  refine ⟨⟨x.verdict, y.verdict, hfirst.verdicts, hlast.verdicts⟩, ?_, ?_, ?_, ?_, ?_, ?_, ?_⟩
  · rw [hfirst.after, hlast.after]
    exact ⟨rfl, Imprint.onto_comm hx hr hy hq d.document d.session, rfl, rfl⟩
  · rw [hfirst.hides, hlast.hides]
    exact perm_fresh (hswap.flatMap_right _) _
  · rw [hfirst.reports, hlast.reports]
    exact hswap.flatMap_right _
  · rw [hr'.after]
    exact hmarkers
  · rw [hr'.after]
    exact hplayer
  · rw [hr'.after]
    exact hending
  · intro l hl
    rw [hq'.after]
    exact hy.onto_interpreter hq d.document d.session hl

/-- Permissions of a body that is refused, and an execution of which one
step has no place: each hides a line, and one line is hidden already. -/
theorem independent_of_replies :
    let d := (initial .initial "f(x);\ng(y);").afterAll (fun _ => 0)
      [.start ⟨.boundaries, [0]⟩, .answer 0 (.text "\x7b\"Ok\":[]\x7d")]
    let r : Render := ⟨.permissions .initial, [1]⟩
    let q : Render := ⟨.interpreter false, [0, 1]⟩
    let a := Answer.text "\x7b\"Ok\":[\x7b\"Err\":[\"AnalysisError\",\"unit\"]\x7d]\x7d"
    let b := Answer.text "\x7b\"Ok\":[[[[]],[[[\"main\",[0,11],[6,10],[]]]]]]\x7d"
    (d.AtRest ∧ r.job.command ≠ .interpreter ∧ q.job.command = .interpreter) ∧
      verdicts (d.run (fun _ => 0) (inTurn d.started [(r, a), (q, b)])) =
        [.applied ⟨⟨0⟩, 0, 1⟩, .applied ⟨⟨0⟩, 1, 1⟩] ∧
      Independent (fun _ => 0) d (r, a) (q, b) := by
  intro d r q a b
  have hrest : d.AtRest := atRest_afterAll (by decide +kernel)
  refine ⟨⟨hrest, by decide, rfl⟩, by decide +kernel, ?_⟩
  exact hrest.independent (by decide) rfl (fun _ => 0) a b

end Desk

end Marginalia
