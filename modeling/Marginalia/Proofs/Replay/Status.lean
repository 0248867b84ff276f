import Marginalia.Proofs.Replay.Places
import Marginalia.Proofs.Session.Playback
import Marginalia.Proofs.Trace.Sound
import Mathlib

/-!
# Replay — what the status says

A replay whose lines can all be printed goes on to its end, and the reply
alone decides what that is: it is no reply, a refusal, or a payload that
is shown (`Arises`). A payload is shown without a report exactly if it is
sound (`Session.reports_eq_nil_iff`): no body of it is refused, and every
step has a place and pointers that lead somewhere.

So the status is that of the reply (`Record.Exact`). What is printed after
the lines of the session is the transcript of the payload, whatever the
status: the steps of an execution that have a place, one after the other,
and how it ended.
-/

namespace Marginalia

/-! ## Payloads -/

/-- **Nothing of a payload is lacking** in a text of `n` characters: no
body is refused, every step is sound. -/
def Payload.Sound (n : Nat) : Payload → Prop
  | .permissions units => ∀ u ∈ units, ∃ body, u = .ok body
  | .boundaries units => ∀ u ∈ units, ∃ body, u = .ok body
  | .interpreter raw => ∀ s ∈ raw.steps, s.Sound n

/-- The views of the reported steps that have a place in a text of `n`
characters, each at the position where it was reported. -/
def RawTrace.views (raw : RawTrace) (n : Nat) : List StepView :=
  raw.steps.zipIdx.filterMap fun (s, i) => (s.place? n).map fun span => (s.placed i span).view.1

/-- The steps of a payload that are shown in a text of `n` characters. -/
def Payload.views (n : Nat) : Payload → List StepView
  | .interpreter raw => raw.views n
  | _ => []

/-- How the execution ended, in the payload of one. -/
def Payload.ending? : Payload → Option Ending
  | .interpreter raw => some raw.ending
  | _ => none

/-- The last line, if the execution of a payload came to its end. -/
def Payload.farewell : Payload → String
  | .interpreter ⟨_, .success⟩ => "program finished\n"
  | _ => ""

/-- **What is printed of a payload** in a text of `n` characters: the steps
that have a place, in the order of the payload, and the last line. -/
def Payload.transcript (n : Nat) (p : Payload) : String :=
  String.join ((p.views n).map StepView.text) ++ p.farewell

/-- What is said about a text, if the execution of a payload broke off. -/
def Payload.faults (text : String) : Payload → List Replay.Diagnostic
  | .interpreter ⟨_, .fault message span⟩ => [.about s!"program faulted: {message}" text span]
  | _ => []

/-- A view of the execution is that of a reported step, at its place. -/
theorem RawTrace.mem_views {raw : RawTrace} {n : Nat} {u : StepView} :
    u ∈ raw.views n ↔ ∃ (i : Nat) (s : RawStep) (span : Span),
      raw.steps[i]? = some s ∧ s.place? n = some span ∧ u = (s.placed i span).view.1 := by
  simp only [views, List.mem_filterMap, Prod.exists, List.mk_mem_zipIdx_iff_getElem?,
    Option.map_eq_some_iff]
  constructor
  · rintro ⟨s, i, hs, span, hspan, rfl⟩
    exact ⟨i, s, span, hs, hspan, rfl⟩
  · rintro ⟨i, s, span, hs, hspan, rfl⟩
    exact ⟨s, i, hs, span, hspan, rfl⟩

/-- The text of a step starts with a line that says which step it is. -/
theorem StepView.exists_text_eq (u : StepView) :
    ∃ rest, u.text = s!"step {u.index} at {u.span.text}\n" ++ rest := by
  rw [text, lines, List.cons_append, List.map_cons, String.join_cons]
  exact ⟨_, rfl⟩

theorem Trace.map_view_ofRaw (raw : RawTrace) (n : Nat) :
    ((ofRaw raw n).steps.map fun step => step.view.1) = raw.views n := by
  rw [steps_ofRaw, List.map_filterMap, RawTrace.views]
  simp only [Option.map_map, Function.comp_def]

theorem Marking.refusals_eq_nil_iff {α : Type} (units : List (Outcome α)) :
    refusals units = [] ↔ ∀ u ∈ units, ∃ a, u = .ok a := by
  have hall : (∀ x ∈ units.zipIdx, ∃ a, x.1 = .ok a) ↔ ∀ u ∈ units, ∃ a, u = .ok a := by
    rw [← List.forall_mem_map (P := fun u => ∃ a, u = Except.ok a), List.zipIdx_map_fst]
  rw [refusals, List.filterMap_eq_nil_iff, ← hall]
  refine forall₂_congr fun x _ => ?_
  obtain ⟨u, i⟩ := x
  cases u <;> simp

namespace Session

variable {s s' : Session} {d : Document} {f : Flight} {p : Payload} {l : Landing}

/-- **Nothing is reported of a payload exactly if it is sound.** -/
theorem reports_eq_nil_iff (h : s.apply d f p = .ok (s', l)) :
    l.reports = [] ↔ p.Sound f.text.length := by
  rcases apply_cases h with ⟨view, units, -, rfl, hl⟩ | ⟨units, -, rfl, hl⟩ | ⟨_, raw, -, rfl, hl⟩
  · obtain ⟨-, rfl⟩ := Prod.mk.inj hl
    exact List.map_eq_nil_iff.trans (Marking.refusals_eq_nil_iff units)
  · obtain ⟨-, rfl⟩ := Prod.mk.inj hl
    exact List.map_eq_nil_iff.trans (Marking.refusals_eq_nil_iff units)
  · obtain ⟨-, rfl⟩ := Prod.mk.inj hl
    simp only [List.append_eq_nil_iff, List.map_eq_nil_iff]
    exact raw.sound_iff f.text.length

/-- **An execution that is taken in is the one of the payload**, if the
session had none. -/
theorem views_of_apply (hplayer : s.player = .empty) (hending : s.ending = none)
    (hmap : ∀ span, d.map? span f.revision = some span) (hlength : d.length = f.text.length)
    (h : s.apply d f p = .ok (s', l)) :
    (s'.player.trace.steps.map fun step => step.view.1) = p.views f.text.length ∧
      s'.ending = p.ending? := by
  rcases apply_cases h with ⟨view, units, -, rfl, hl⟩ | ⟨units, -, rfl, hl⟩ | ⟨_, raw, -, rfl, hl⟩
  · obtain ⟨rfl, -⟩ := Prod.mk.inj hl
    exact ⟨by simp only [hplayer]; rfl, hending⟩
  · obtain ⟨rfl, -⟩ := Prod.mk.inj hl
    exact ⟨by simp only [hplayer]; rfl, hending⟩
  · have hplays := (applyTrace_plays hmap hlength hl).1
    obtain ⟨rfl, -⟩ := Prod.mk.inj hl
    exact ⟨hplays.steps ▸ Trace.map_view_ofRaw raw f.text.length, rfl⟩

end Session

namespace Replay

/-! ## Going through the steps -/

/-- The cursor goes wherever it is sent, and leaves the steps alone. -/
theorem walk_eq_filterMap (s : Session) {positions : List Nat}
    (h : ∀ i ∈ positions, i < s.player.size) :
    walk s positions =
      positions.filterMap fun i => s.player.trace.steps[i]?.map fun step => step.view.1 := by
  induction positions generalizing s with
  | nil => rfl
  | cons i positions ih =>
    obtain ⟨hi, hpositions⟩ := List.forall_mem_cons.mp h
    have hrest := ih (s.seek i).1 fun j hj => by
      simpa [Session.seek, Session.move] using hpositions j hj
    have hstep : (s.player.seek i).step? = s.player.trace.steps[i]? := by
      rw [Player.step?, Player.current_seek, if_pos hi, Player.trace_seek, Option.bind_some]
    have hwalk : walk s (i :: positions) =
        ((s.player.seek i).step?.map fun step => step.view.1).toList ++
          walk (s.seek i).1 positions := rfl
    rw [hwalk, hrest, hstep, List.filterMap_cons]
    simp only [Session.seek, Session.move, Player.trace_seek]
    cases s.player.trace.steps[i]? <;> rfl

/-- **To go through all positions shows every step once**, in order. -/
theorem walk_range (s : Session) :
    walk s (List.range s.player.size) = s.player.trace.steps.map fun step => step.view.1 := by
  have hshown := s.player.trace.filterMap_range fun _ step => step.view.1
  rw [List.mapIdx_eq_zipIdx_map] at hshown
  rw [walk_eq_filterMap s fun i hi => List.mem_range.mp hi, Player.size, hshown]
  conv_rhs => rw [← List.zipIdx_map_fst 0 s.player.trace.steps, List.map_map]
  rfl

/-! ## All that can come of a replay -/

/-- **What can come of a replay**, by what the text of the reply is read
as. -/
inductive Arises (c : Command) (text reply : String) : Record → Prop
  /-- It is no reply to the command. -/
  | unreadable {m : Malformed} (lines : List String) :
      Reply.decode c reply = .error m →
      Arises c text reply ⟨lines, [], none, [.outage (.malformed m)], some .failed⟩
  /-- It is a refusal. -/
  | refused {r : Refusal} (lines : List String) :
      Reply.decode c reply = .ok (.error r) →
      Arises c text reply ⟨lines, [], none, [.refused r], some .buildFailed⟩
  /-- It is a payload, which is shown. -/
  | shown {p : Payload} {reports : List Report} (lines : List String) (x : Summary) :
      Reply.decode c reply = .ok (.ok p) → (reports = [] ↔ p.Sound text.length) →
      Arises c text reply ⟨lines, p.views text.length, p.ending?, reports, some (.applied x)⟩

/-- **Nothing else comes of a replay** that does not break off. -/
theorem replay_arises {digest : Digest} {config : Config} {render : Render} {text reply : String}
    (hprintable : none ∉ listing digest config render text reply) :
    Arises render.job.command text reply (replay digest config render text reply) := by
  obtain ⟨printed, hok, -⟩ := printAll_of_notMem hprintable
  obtain ⟨s, f, hstart, hplayer, hending, hcommand, htext, hfits⟩ :=
    exists_start digest config render text
  have hfinished := s.finish_finished digest (.ofText text) f (.text reply)
  simp only [listing, notices, hstart] at hok
  simp only [replay, hstart, hok]
  generalize s.finish digest (.ofText text) f (.text reply) = finished at hfinished ⊢
  obtain ⟨s', notices, v⟩ := finished
  rw [walk_range, ← hcommand]
  have hnone : (s.player.trace.steps.map fun step => step.view.1) = [] := by
    rw [hplayer]
    rfl
  cases hfinished with
  | outdated hepoch => exact absurd hfits.epoch hepoch
  | edited _ hprint => exact absurd hfits.fingerprint hprint
  | failed _ hreply =>
    rw [Answer.reply] at hreply
    cases hdecode : Reply.decode f.command reply with
    | ok r =>
      rw [hdecode] at hreply
      cases hreply
    | error m =>
      rw [hdecode] at hreply
      cases hreply
      simp only [hnone, hending]
      exact .unreadable _ hdecode
  | refused _ hreply =>
    obtain ⟨_, hraw, hdecode⟩ := Answer.reply_eq_ok_iff.mp hreply
    cases hraw
    simp only [hnone, hending]
    exact .refused _ hdecode
  | @applied p s' l _ hreply hl =>
    obtain ⟨_, hraw, hdecode⟩ := Answer.reply_eq_ok_iff.mp hreply
    cases hraw
    have hsound := Session.reports_eq_nil_iff hl
    have hmap := fun span => hfits.revision ▸ Document.map?_now (Document.kept_ofText text) span
    obtain ⟨hviews, hend⟩ :=
      Session.views_of_apply hplayer hending hmap (congrArg String.length htext.symm) hl
    rw [htext] at hsound hviews
    simp only [hviews, hend]
    exact .shown _ _ hdecode ((Eq.congr_left (reports_landing l _ _ _)).trans hsound)

/-! ## What is printed -/

theorem endLines_endingLines (p : Payload) : endLines (endingLines p.ending?) = p.farewell := by
  cases p with
  | interpreter raw =>
    obtain ⟨steps, ending⟩ := raw
    cases ending <;> rfl
  | _ => rfl

theorem endingDiagnostics_eq (text : String) (p : Payload) :
    endingDiagnostics text p.ending? = p.faults text := by
  cases p with
  | interpreter raw =>
    obtain ⟨steps, ending⟩ := raw
    cases ending <;> rfl
  | _ => rfl

namespace Record

variable {r : Record} {p : Payload} {text : String}

/-- After the lines comes the transcript, if it is a payload that is shown, -/
theorem printed_eq (hsteps : r.steps = p.views text.length) (hending : r.ending = p.ending?) :
    r.printed = String.join (r.lines.map (· ++ "\n")) ++ p.transcript text.length := by
  rw [printed, hsteps, hending, endLines_endingLines, String.append_assoc]
  rfl

/-- and nothing, if there is no execution. -/
theorem printed_of_nil (hsteps : r.steps = []) (hending : r.ending = none) :
    r.printed = String.join (r.lines.map (· ++ "\n")) := by
  simp [printed, hsteps, hending, endLines, endingLines]

theorem diagnostics_eq (hending : r.ending = p.ending?) :
    r.diagnostics text = p.faults text ++ r.reports.map (.ofReport text) := by
  rw [diagnostics, hending, endingDiagnostics_eq]

theorem diagnostics_of_none (hending : r.ending = none) :
    r.diagnostics text = r.reports.map (.ofReport text) := by
  rw [diagnostics, hending]
  rfl

end Record

/-! ## The status -/

/-- Something is printed or reported of how an execution ended. -/
def Record.TellsEnding (r : Record) (text : String) : Prop :=
  endingLines r.ending ≠ [] ∨ endingDiagnostics text r.ending ≠ []

theorem Record.tellsEnding_iff {r : Record} {text : String} :
    r.TellsEnding text ↔ r.ending ≠ none := by
  rw [TellsEnding]
  match r.ending with
  | none => simp [endingLines, endingDiagnostics]
  | some .success => simp [endingLines]
  | some (.fault _ _) => simp [endingDiagnostics]

/-- **What a replay prints and reports is exact.** -/
structure Record.Prints (r : Record) (c : Command) (text reply : String) : Prop where
  /-- After the lines comes the transcript of the payload, and that is all. -/
  printed : ∀ p, Reply.decode c reply = .ok (.ok p) →
    r.printed = String.join (r.lines.map (· ++ "\n")) ++ p.transcript text.length
  /-- Without a payload there are the lines alone. -/
  printed_lines : (∀ p, Reply.decode c reply ≠ .ok (.ok p)) →
    r.printed = String.join (r.lines.map (· ++ "\n"))
  /-- Every step that is shown says which it is and where. -/
  headers : ∀ u ∈ r.steps, ∃ (raw : RawTrace) (i : Nat) (s : RawStep) (span : Span) (rest : String),
    Reply.decode c reply = .ok (.ok (.interpreter raw)) ∧ raw.steps[i]? = some s ∧
      s.place? text.length = some span ∧ u.text = s!"step {i} at {span.text}\n" ++ rest
  /-- The diagnostics are how the execution broke off, if it did, and then
  the reports. -/
  diagnostics : ∀ p, Reply.decode c reply = .ok (.ok p) →
    r.diagnostics text = p.faults text ++ r.reports.map (.ofReport text)
  /-- Without a payload they are the reports alone. -/
  diagnostics_reports : (∀ p, Reply.decode c reply ≠ .ok (.ok p)) →
    r.diagnostics text = r.reports.map (.ofReport text)

/-- **The status of a replay is exact**, and so is what it tells of an
execution. -/
structure Record.Exact (r : Record) (c : Command) (text reply : String) : Prop
    extends r.Prints c text reply where
  /-- The status is that of a success or that of a failure. -/
  status : r.status = if r.success then 0 else 1
  /-- Success means a payload of which nothing is lacking. -/
  success_iff : r.success = true ↔
    ∃ p, Reply.decode c reply = .ok (.ok p) ∧ p.Sound text.length
  /-- No failure goes without a report. -/
  reports_ne_nil : r.success = false → r.reports ≠ []
  /-- The steps that have a place are shown once each, in the order of
  the reply. -/
  steps : ∀ raw, Reply.decode c reply = .ok (.ok (.interpreter raw)) →
    r.steps = raw.views text.length
  /-- No other steps are. -/
  steps_eq_nil : (∀ raw, Reply.decode c reply ≠ .ok (.ok (.interpreter raw))) → r.steps = []
  /-- How an execution ended is told wherever there is one. -/
  tellsEnding_iff : r.TellsEnding text ↔
    c = .interpreter ∧ ∃ p, Reply.decode c reply = .ok (.ok p)
  /-- It is told as the reply says it. -/
  ending : ∀ e, r.ending = some e → ∃ raw,
    Reply.decode c reply = .ok (.ok (.interpreter raw)) ∧ raw.ending = e

namespace Arises

variable {c : Command} {text reply : String} {r : Record} {p : Payload}

theorem success_iff (h : Arises c text reply r) : r.success = true ↔
    ∃ p, Reply.decode c reply = .ok (.ok p) ∧ p.Sound text.length := by
  cases h with
  | unreadable _ hdecode => simp [Record.success, isApplied, hdecode]
  | refused _ hdecode => simp [Record.success, isApplied, hdecode]
  | shown _ _ hdecode hsound => simp [Record.success, isApplied, hdecode, hsound]

theorem reports_ne_nil (h : Arises c text reply r) (hfails : r.success = false) :
    r.reports ≠ [] := by
  cases h with
  | unreadable _ _ => exact List.cons_ne_nil _ _
  | refused _ _ => exact List.cons_ne_nil _ _
  | shown _ _ _ _ => simpa [Record.success, isApplied] using hfails

theorem verdict_ne_none (h : Arises c text reply r) : r.verdict ≠ none := by
  cases h <;> exact Option.some_ne_none _

/-- A payload is shown with its steps and its end, -/
theorem of_payload (h : Arises c text reply r) (hp : Reply.decode c reply = .ok (.ok p)) :
    r.steps = p.views text.length ∧ r.ending = p.ending? := by
  cases h with
  | unreadable _ hdecode => cases hdecode.symm.trans hp
  | refused _ hdecode => cases hdecode.symm.trans hp
  | shown _ _ hdecode _ =>
    cases hdecode.symm.trans hp
    exact ⟨rfl, rfl⟩

/-- and nothing else is. -/
theorem of_no_payload (h : Arises c text reply r)
    (hnone : ∀ p, Reply.decode c reply ≠ .ok (.ok p)) : r.steps = [] ∧ r.ending = none := by
  cases h with
  | unreadable _ _ => exact ⟨rfl, rfl⟩
  | refused _ _ => exact ⟨rfl, rfl⟩
  | shown _ _ hdecode _ => exact absurd hdecode (hnone _)

/-- So steps and an end are those of an execution. -/
theorem execution_cases (h : Arises c text reply r) :
    (∃ raw, Reply.decode c reply = .ok (.ok (.interpreter raw)) ∧
      r.steps = raw.views text.length ∧ r.ending = some raw.ending) ∨
    (∀ raw, Reply.decode c reply ≠ .ok (.ok (.interpreter raw))) ∧
      r.steps = [] ∧ r.ending = none := by
  by_cases hp : ∃ p, Reply.decode c reply = .ok (.ok p)
  · obtain ⟨p, hp⟩ := hp
    obtain ⟨hsteps, hending⟩ := h.of_payload hp
    cases p with
    | interpreter raw => exact .inl ⟨raw, hp, hsteps, hending⟩
    | _ => exact .inr ⟨by simp [hp], hsteps, hending⟩
  · push Not at hp
    exact .inr ⟨fun raw => hp _, h.of_no_payload hp⟩

theorem prints (h : Arises c text reply r) : r.Prints c text reply where
  printed _ hp := Record.printed_eq (h.of_payload hp).1 (h.of_payload hp).2
  printed_lines hnone := Record.printed_of_nil (h.of_no_payload hnone).1 (h.of_no_payload hnone).2
  headers u hu := by
    rcases h.execution_cases with ⟨raw, hraw, hsteps, -⟩ | ⟨-, hsteps, -⟩
    · rw [hsteps] at hu
      obtain ⟨i, s, span, hs, hspan, rfl⟩ := RawTrace.mem_views.mp hu
      obtain ⟨rest, htext⟩ := (s.placed i span).view.1.exists_text_eq
      exact ⟨raw, i, s, span, rest, hraw, hs, hspan, htext⟩
    · rw [hsteps] at hu
      cases hu
  diagnostics _ hp := Record.diagnostics_eq (h.of_payload hp).2
  diagnostics_reports hnone := Record.diagnostics_of_none (h.of_no_payload hnone).2

theorem tellsEnding_iff (h : Arises c text reply r) :
    r.TellsEnding text ↔ c = .interpreter ∧ ∃ p, Reply.decode c reply = .ok (.ok p) := by
  rw [Record.tellsEnding_iff]
  rcases h.execution_cases with ⟨raw, hraw, -, hending⟩ | ⟨hnone, -, hending⟩
  · rw [hending]
    exact iff_of_true (Option.some_ne_none _) ⟨(Reply.command_of_decode hraw).symm, _, hraw⟩
  · rw [hending]
    refine iff_of_false (fun hne => hne rfl) ?_
    rintro ⟨hcommand, p, hp⟩
    have hinterpreter : p.command = .interpreter := (Reply.command_of_decode hp).trans hcommand
    cases p with
    | interpreter raw => exact hnone raw hp
    | _ => cases hinterpreter

/-- A payload has steps and an end if it is an execution. -/
theorem isExact (h : Arises c text reply r) : r.Exact c text reply where
  toPrints := h.prints
  status := Record.status_eq h.verdict_ne_none
  success_iff := h.success_iff
  reports_ne_nil := h.reports_ne_nil
  steps _ hraw := (h.of_payload hraw).1
  steps_eq_nil hnone := by
    rcases h.execution_cases with ⟨raw, hraw, -, -⟩ | ⟨-, hsteps, -⟩
    · exact absurd hraw (hnone raw)
    · exact hsteps
  tellsEnding_iff := h.tellsEnding_iff
  ending e he := by
    rcases h.execution_cases with ⟨raw, hraw, -, hending⟩ | ⟨-, -, hending⟩
    · exact ⟨raw, hraw, Option.some.inj (hending.symm.trans he)⟩
    · cases hending.symm.trans he

end Arises

@[simp] theorem Arguments.command_render (a : Arguments) : a.render.job.command = a.command := by
  unfold render
  cases a.command <;> rfl

/-- A command line that can be read, whose files can be read, is
replayed. -/
theorem run_eq_ok {a : Arguments} {text reply : String} {arguments : List String}
    {read : String → Except Obstacle String} (digest : Digest) (config : Config)
    (ha : Arguments.ofList arguments = .ok a) (htext : read a.source = .ok text)
    (hreply : read a.reply = .ok reply) :
    run digest config read arguments =
      .ok (a, text, replay digest config a.render text reply) := by
  rw [run, ha]
  simp only [bind, Except.bind, pure, Except.pure, htext, hreply, Except.mapError]

/-- **The status of a replay is that of the reply**, with whatever options
and for any two texts, if the lines of the session can be printed; then
these are the lines that come before the transcript. Wherever the command
line and the two files can be read, this is the replay that is done. -/
theorem status_exact (digest : Digest) (config : Config) (a : Arguments) (text reply : String)
    (hprintable : none ∉ listing digest config a.render text reply) :
    (replay digest config a.render text reply).Exact a.command text reply ∧
      (replay digest config a.render text reply).lines.map some =
        listing digest config a.render text reply ∧
      ∀ (read : String → Except Obstacle String) (arguments : List String),
        Arguments.ofList arguments = .ok a → read a.source = .ok text →
        read a.reply = .ok reply →
        run digest config read arguments =
          .ok (a, text, replay digest config a.render text reply) := by
  refine ⟨?_, ?_, fun read arguments ha htext hreply => run_eq_ok digest config ha htext hreply⟩
  · have harises := replay_arises hprintable
    rw [Arguments.command_render] at harises
    exact harises.isExact
  · obtain ⟨printed, hok, hls⟩ := printAll_of_notMem hprintable
    rw [(lines_of_ok hok).1, hls]

/-- A pointer into the heap is followed and the replay succeeds; a step
without a frame is reported, and the one after it is shown. -/
theorem status_exact_of_files :
    let text := "fn main() \x7b\x7d"
    let innermost (locals : List Binding) : Frame := ⟨"main", ⟨0, 12⟩, ⟨3, 7⟩, locals⟩
    let points : RawStep := ⟨[innermost [⟨"p", .pointer (.heap 0)⟩]], [.unallocated]⟩
    let plain : RawStep := ⟨[innermost []], []⟩
    let pointing := Reply.encode (.ok (.interpreter ⟨[points], .success⟩))
    let frameless := "\x7b\"Ok\":[[[[]],[[[\"main\",[0,12],[3,7],[]]]]]]\x7d"
    let rerun (reply : String) := run (fun _ => 0) .initial
      (fun path => if path = "main.rs" then .ok text else .ok reply)
      ["interpreter", "main.rs", "reply.json", "--hide", "1"]
    (∃ a r, rerun pointing = .ok (a, text, r) ∧ r.success = true ∧ r.status = 0 ∧
      r.steps = [(points.placed 0 ⟨3, 7⟩).view.1]) ∧
    ∃ a r, rerun frameless = .ok (a, text, r) ∧ r.success = false ∧ r.reports ≠ [] ∧
      r.steps = [(plain.placed 1 ⟨3, 7⟩).view.1] ∧ r.TellsEnding text ∧
      r.printed = String.join (r.lines.map (· ++ "\n")) ++
        "step 1 at 3..7\n  main @ 3..7\nprogram finished\n" := by
  intro text innermost points plain pointing frameless rerun
  let a : Arguments := ⟨.interpreter, "main.rs", "reply.json", [0], .initial, false⟩
  have ha : Arguments.ofList ["interpreter", "main.rs", "reply.json", "--hide", "1"] = .ok a := by
    dsimp only [a]
    cbv
  have hprintable (reply : String) :
      none ∉ listing (fun _ => 0) .initial a.render text reply :=
    notMem_listing _ _ (by decide) (.inr fun _ _ hnames => by cases hnames)
  have hexact (reply : String) :=
    status_exact (fun _ => 0) .initial a text reply (hprintable reply)
  have hrerun (reply : String) :
      rerun reply = .ok (a, text, replay (fun _ => 0) .initial a.render text reply) :=
    (hexact reply).2.2 (fun path => if path = "main.rs" then .ok text else .ok reply) _ ha
      (if_pos rfl) (if_neg (by decide))
  have hlength : text.length = 12 := by decide
  have hpath : (Path.heap 0).Addressable := ⟨show 0 < wordBound by decide, List.forall_mem_nil _⟩
  have hsendable : points.Sendable := by
    refine ⟨List.forall_mem_singleton.mpr ⟨by decide, by decide, ?_⟩, ?_⟩
    · exact List.forall_mem_singleton.mpr (Value.Built.pointer hpath).sendable
    · exact List.forall_mem_singleton.mpr Value.Built.unallocated.sendable
  have hdoubles : ∀ v ∈ Reply.values (.ok (.interpreter ⟨[points], .success⟩)), v.doubles = [] := by
    decide +kernel
  have hpointing :
      Reply.decode .interpreter pointing = .ok (.ok (.interpreter ⟨[points], .success⟩)) := by
    rw [Reply.decode_encode_eq]
    · exact if_pos (by decide +kernel)
    · exact ⟨List.forall_mem_singleton.mpr hsendable, trivial⟩
    · intro v hv _ _ hx
      exact absurd hx (List.eq_nil_iff_forall_not_mem.mp (hdoubles v hv) _)
    · intro payload hpayload
      cases Except.ok.inj hpayload
      rfl
  have hframeless : Reply.decode .interpreter frameless =
      .ok (.ok (.interpreter ⟨[⟨[], []⟩, plain], .success⟩)) := by
    dsimp only [frameless, plain, innermost]
    cbv
  have hsound : points.Sound text.length := by
    rw [hlength]
    refine ⟨⟨_, rfl, by decide, by decide⟩, fun v hv path hpath => ?_⟩
    rw [← Value.mem_pointers] at hpath
    have hheap : ∀ v ∈ points.values, ∀ path ∈ v.pointers, path = .heap 0 := by decide
    rw [hheap v hv path hpath]
    exact ⟨_, rfl⟩
  have hsuccess := (hexact pointing).1.success_iff.mpr
    ⟨_, hpointing, List.forall_mem_singleton.mpr hsound⟩
  refine ⟨⟨a, _, hrerun _, hsuccess, ?_, ?_⟩, ⟨a, _, hrerun _, ?_⟩⟩
  · rw [(hexact pointing).1.status, if_pos hsuccess]
  · rw [(hexact pointing).1.steps _ hpointing, hlength]
    rfl
  · have hfails : ¬ (replay (fun _ => 0) .initial a.render text frameless).success = true := by
      rw [(hexact frameless).1.success_iff]
      rintro ⟨p, hp, hsound⟩
      cases hframeless.symm.trans hp
      obtain ⟨_, hnone, -⟩ := (hsound ⟨[], []⟩ List.mem_cons_self).place
      cases hnone
    rw [Bool.not_eq_true] at hfails
    refine ⟨hfails, (hexact frameless).1.reports_ne_nil hfails, ?_, ?_, ?_⟩
    · rw [(hexact frameless).1.steps _ hframeless, hlength]
      rfl
    · exact (hexact frameless).1.tellsEnding_iff.mpr ⟨rfl, _, hframeless⟩
    · rw [(hexact frameless).1.printed _ hframeless, hlength]
      exact congrArg _ (by decide +kernel)

end Replay

end Marginalia
