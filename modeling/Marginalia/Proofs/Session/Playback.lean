import Marginalia.Proofs.Session.Course
import Marginalia.Proofs.Session.Failure
import Marginalia.Proofs.Session.Mirror
import Marginalia.Proofs.Trace.Playing

/-!
# Session — execution, cursor and markers in step

What is known of an execution stands in three places: the player has the
steps and the cursor, a layer has a marker for each step, and the widget
has been told which step to mark. At every point of every run the three
agree (`Desk.run_inStep`).

An execution is sorted for the length of the text that was sent, and
shown in the text that is there when the answer comes. The two lengths
are one: a flight that still fits is of the revision that is there, and
was sent with its text (`Desk.Abreast`). So every kept step has its
marker, and the first of them is the one on show
(`Session.applyTrace_eq`).
-/

namespace Marginalia

/-- The step that a notice marks, if it is about one. -/
def Notice.step? : Notice → Option (Option Nat)
  | .stepIndex _ position => some position
  | _ => none

/-- What is made known of steps, in order. -/
def stepNotices (notices : List Notice) : List (Option Nat) := notices.filterMap Notice.step?

/-- The step that the widget marks: the last one it was told of, and
none before it was told of any. -/
def stepTold (notices : List Notice) : Option Nat := (stepNotices notices).getLast?.join

/-- A marker for each step, with its position. -/
def Trace.markers (t : Trace) : List Decoration :=
  t.steps.mapIdx fun i step => ⟨step.span, none, .marker i⟩

variable {ns ms : List Notice}

@[simp] theorem stepNotices_append :
    stepNotices (ns ++ ms) = stepNotices ns ++ stepNotices ms :=
  List.filterMap_append

/-- Where nothing is made known of steps, the widget marks what it
marked. -/
theorem stepTold_append_of_nil (h : stepNotices ms = []) : stepTold (ns ++ ms) = stepTold ns := by
  rw [stepTold, stepNotices_append, h, List.append_nil, stepTold]

/-- And else what it is told last. -/
theorem stepTold_append_of_singleton {position : Option Nat} (h : stepNotices ms = [position]) :
    stepTold (ns ++ ms) = position := by
  rw [stepTold, stepNotices_append, h, List.getLast?_concat, Option.join_some]

/-- Of what a landing makes known, the step is its own. -/
theorem stepNotices_landing (l : Landing) (phase : Phase) (revision : Revision)
    (spans : List Span) :
    stepNotices (l.notices phase revision spans) = l.stepIndex.toList := by
  simp [stepNotices, filterMap_landing, Notice.step?]

namespace Session

variable {digest : Digest} {s s' : Session} {d : Document} {f : Flight} {p : Payload}
variable {l : Landing}

/-- **Execution, cursor and markers agree.** -/
structure InStep (s : Session) : Prop where
  seated : s.player.Seated
  markers : s.store.layer .markers = s.player.trace.markers

/-! ## Taking a payload in -/

/-- The markers of all positions are those of the steps. -/
theorem markers_range (t : Trace) : Marking.markers t (List.range t.size) = t.markers :=
  t.filterMap_range _

/-- **An execution is shown whole** and from its first step on. -/
structure Plays (s : Session) (t : Trace) : Prop where
  steps : s.player.trace.steps = t.steps
  current : s.player.current = if t.size = 0 then none else some 0
  markers : s.store.layer .markers = t.markers

theorem Plays.inStep {t : Trace} (h : s.Plays t) : s.InStep where
  seated := by
    have hsize : s.player.size = t.size := congrArg List.length h.steps
    constructor
    · rw [h.current, hsize]
      split <;> simp [*]
    · intro i hi
      rw [h.current] at hi
      rw [hsize]
      split at hi
      · cases hi
      · cases hi
        omega
  markers := by rw [h.markers, Trace.markers, Trace.markers, h.steps]

/-- What becomes of an execution in a text of the length that it is
sorted for. -/
theorem applyTrace_plays {computedAt : Revision} {length : Nat} {raw : RawTrace}
    (hmap : ∀ span, d.map? span computedAt = some span) (hlength : d.length = length)
    (h : s.applyTrace d computedAt length raw = (s', l)) :
    s'.Plays (Trace.ofRaw raw length) ∧ l.stepIndex = some s'.player.current ∧
      l.applied = (Trace.ofRaw raw length).size ∧
      l.applied + l.failed = raw.steps.length := by
  have hcount := Trace.length_ofRaw raw length
  simp only [applyTrace, hlength, Trace.renderable_ofRaw, markers_range, Store.replaceAll,
    Store.moveAll_of_forall hmap, Prod.mk.injEq] at h
  obtain ⟨rfl, rfl⟩ := h
  have hmarkers := Store.layer_change s.store .markers (.replaced (Trace.ofRaw raw length).markers)
  simp only [List.length_range]
  cases hsize : (Trace.ofRaw raw length).size with
  | zero =>
    have hsteps : (Trace.ofRaw raw length).steps = [] := List.eq_nil_of_length_eq_zero hsize
    exact ⟨⟨hsteps.symm, by simp [Player.empty, hsize], hmarkers⟩, rfl, trivial, by omega⟩
  | succ n =>
    have hhead : (List.range (n + 1)).head? = some 0 := by simp [List.range_succ_eq_map]
    have hseek : ((Player.ofTrace (Trace.ofRaw raw length)).seek 0).current = some 0 := by
      rw [Player.current_seek, if_pos]
      change 0 < (Trace.ofRaw raw length).size
      omega
    simp only [hhead]
    refine ⟨⟨congrArg Trace.steps (Player.trace_seek _ _), ?_, hmarkers⟩, ?_, trivial, by omega⟩
    · rw [hseek, if_neg (by omega)]
    · rw [hseek]

/-- A marking leaves execution, cursor and markers alone. -/
theorem applyMarking_keeps {computedAt : Revision} {c : Command} {m : Marking}
    (hm : .markers ∉ m.layers.map Prod.fst) (h : s.applyMarking d computedAt c m = (s', l)) :
    s'.player = s.player ∧ s'.store.layer .markers = s.store.layer .markers ∧
      l.stepIndex = none := by
  obtain ⟨rfl, rfl⟩ := Prod.mk.inj h
  exact ⟨rfl, Store.layer_replaceEach_of_notMem hm s.store computedAt d.map?, rfl⟩

/-- **What a payload does to execution, cursor and markers.** -/
theorem apply_plays (hmap : ∀ span, d.map? span f.revision = some span)
    (hlength : d.length = f.text.length) (h : s.apply d f p = .ok (s', l)) :
    (s'.player = s.player ∧ s'.store.layer .markers = s.store.layer .markers ∧
      l.stepIndex = none ∧ f.command ≠ .interpreter) ∨
    ∃ raw, p = .interpreter raw ∧ s'.Plays (Trace.ofRaw raw f.text.length) ∧
      l.stepIndex = some s'.player.current ∧
      l.applied = (Trace.ofRaw raw f.text.length).size ∧
      l.applied + l.failed = raw.steps.length := by
  rcases apply_cases h with ⟨view, units, hjob, -, h⟩ | ⟨units, hjob, -, h⟩ | ⟨_, raw, -, hp, h⟩
  · have hkeeps := applyMarking_keeps (by simp [Marking.ofFacts]) h
    exact Or.inl ⟨hkeeps.1, hkeeps.2.1, hkeeps.2.2, by simp [Flight.command, hjob, Job.command]⟩
  · have hkeeps := applyMarking_keeps (by simp [Marking.ofUses]) h
    exact Or.inl ⟨hkeeps.1, hkeeps.2.1, hkeeps.2.2, by simp [Flight.command, hjob, Job.command]⟩
  · exact Or.inr ⟨raw, hp, applyTrace_plays hmap hlength h⟩

/-! ## One moment -/

/-- Where execution, cursor and markers are left alone, they agree as
before. -/
theorem InStep.of_eq (h : s.InStep) (hplayer : s'.player = s.player)
    (hmarkers : s'.store.layer .markers = s.store.layer .markers) : s'.InStep where
  seated := hplayer ▸ h.seated
  markers := by rw [hmarkers, hplayer, h.markers]

/-- A change leaves no execution. -/
theorem inStep_documentChanged (s : Session) (d : Document) :
    (s.documentChanged d).1.InStep where
  seated := Player.seated_empty
  markers := s.store.layer_clearAll .markers

/-- To move the cursor leaves the markers. -/
theorem InStep.seek (h : s.InStep) (position : Nat) :
    InStep { s with player := s.player.seek position } where
  seated := h.seated.seek position
  markers := by
    rw [Player.trace_seek]
    exact h.markers

/-- **Either nothing is made known of steps and the cursor stays, or the
widget is told where it is.** -/
def Tells (s s' : Session) (notices : List Notice) : Prop :=
  (stepNotices notices = [] ∧ s'.player.current = s.player.current) ∨
    stepNotices notices = [s'.player.current]

/-- Whatever an answer does, execution, cursor and markers agree. -/
theorem Finished.inStep {a : Answer} {notices : List Notice} {v : Verdict}
    (h : Finished digest s d f a s' notices v) (hs : s.InStep)
    (hmap : Fits digest s d f →
      (∀ span, d.map? span f.revision = some span) ∧ d.length = f.text.length) :
    s'.InStep ∧ Tells s s' notices := by
  cases h with
  | @applied p s' l hfits _ hl =>
    obtain ⟨hstill, hlength⟩ := hmap hfits
    have hnotices := stepNotices_landing l (.applying f.command) f.revision
      (fresh s'.hidden f.hidden)
    rcases apply_plays hstill hlength hl with
      ⟨hplayer, hmarkers, hindex, -⟩ | ⟨raw, -, hplays, hindex, -, -⟩
    · rw [hindex] at hnotices
      exact ⟨hs.of_eq hplayer hmarkers, Or.inl ⟨hnotices, congrArg Player.current hplayer⟩⟩
    · rw [hindex] at hnotices
      exact ⟨hplays.inStep.of_eq rfl rfl, Or.inr hnotices⟩
  | _ => exact ⟨hs.of_eq rfl rfl, Or.inl ⟨rfl, rfl⟩⟩

/-- **An execution that is applied is shown whole**, in the text that is
there. -/
theorem Finished.plays {a : Answer} {notices : List Notice} {x : Summary}
    (h : Finished digest s d f a s' notices (.applied x)) (hc : f.command = .interpreter)
    (hmap : Fits digest s d f →
      (∀ span, d.map? span f.revision = some span) ∧ d.length = f.text.length) :
    ∃ raw reply, a = .text reply ∧
      Reply.decode .interpreter reply = .ok (.ok (.interpreter raw)) ∧
      s'.Plays (Trace.ofRaw raw d.length) ∧ x.applied = (Trace.ofRaw raw d.length).size ∧
      x.applied + x.failed = raw.steps.length := by
  cases h with
  | @applied p s' l hfits hreply hl =>
    obtain ⟨hstill, hlength⟩ := hmap hfits
    obtain ⟨reply, ha, hreply⟩ := Answer.reply_eq_ok_iff.mp hreply
    rcases apply_plays hstill hlength hl with
      ⟨-, -, -, hne⟩ | ⟨raw, rfl, hplays, -, happlied, hcount⟩
    · exact absurd hc hne
    · rw [hc] at hreply
      rw [hlength]
      exact ⟨raw, reply, ha, hreply, ⟨hplays.steps, hplays.current, hplays.markers⟩, happlied,
        hcount⟩

end Session

/-- **Every moment keeps execution, cursor and markers in step.** -/
theorem Happens.inStep {digest : Digest} {m : Moment} (h : Happens digest m)
    (habreast : m.before.Abreast) (hs : m.before.session.InStep) :
    m.after.session.InStep ∧ Session.Tells m.before.session m.after.session m.notices := by
  cases h with
  | @told d =>
    exact ⟨Session.inStep_documentChanged d.session d.document, Or.inr rfl⟩
  | started hstart =>
    obtain ⟨-, rfl, -⟩ := Session.start_eq_some hstart
    exact ⟨hs.of_eq rfl rfl, Or.inl ⟨rfl, rfl⟩⟩
  | answered hf hfinished => exact hfinished.inStep hs (habreast.of_fits hf)
  | moved _ hp =>
    subst hp
    exact ⟨hs.seek _, Or.inr rfl⟩
  | _ => exact ⟨hs, Or.inl ⟨rfl, rfl⟩⟩

/-- **A move of the cursor**, to where it says and with nothing else
changed: the widget is told of the step that is reached, and it is what
is shown. Nothing is shown only if there are no steps. -/
structure Moment.Moves (m : Moment) (reached : Option Nat) : Prop where
  after : m.after = { m.before with
    session := { m.before.session with
      player := { m.before.session.player with current := reached } } }
  notices : m.notices = [.stepIndex m.before.session.phase reached]
  shown : m.response =
    .step ((reached.bind fun i => m.before.session.player.trace.steps[i]?).map
      fun step => step.view.1)
  nothing : m.response = .step none ↔ m.before.session.player.size = 0

/-- **An execution that is shown whole**: all steps that have a place in
the text, and the cursor on the first. -/
structure Moment.Plays (m : Moment) (raw : RawTrace) (x : Summary) : Prop where
  steps : m.after.session.player.trace.steps = (Trace.ofRaw raw m.after.document.length).steps
  current : m.after.session.player.current =
    if m.after.session.player.size = 0 then none else some 0
  /-- Every step that is kept can be shown. -/
  renderable : m.after.session.player.trace.renderable m.after.document.length =
    List.range m.after.session.player.size
  applied : x.applied = m.after.session.player.size
  /-- No step of the report is left out of the count. -/
  counted : x.applied + x.failed = raw.steps.length

namespace Desk

variable {digest : Digest} {d : Desk} {past : List Moment} {m : Moment}

/-! ## Runs -/

/-- What a run made known of steps, and what came of it. -/
structure Tracked (past : List Moment) (d : Desk) : Prop where
  abreast : d.Abreast
  inStep : d.session.InStep
  told : stepTold (told past) = d.session.player.current

namespace Tracked

theorem initial (config : Config) (text : String) : Tracked [] (Desk.initial config text) where
  abreast := .initial config text
  inStep := ⟨Player.seated_empty, rfl⟩
  told := rfl

theorem step (hm : Happens digest m) (h : Tracked past m.before) :
    Tracked (past ++ [m]) m.after := by
  obtain ⟨hinStep, htells⟩ := hm.inStep h.abreast h.inStep
  refine ⟨h.abreast.step hm, hinStep, ?_⟩
  rw [told_concat]
  rcases htells with ⟨hnone, hstays⟩ | htold
  · rw [stepTold_append_of_nil hnone, h.told, hstays]
  · exact stepTold_append_of_singleton htold

theorem afterAll (digest : Digest) (config : Config) (text : String) (actions : List Action) :
    Tracked ((Desk.initial config text).run digest actions)
      ((Desk.initial config text).afterAll digest actions) :=
  run_induction (Tracked.initial config text) (fun _ _ => step) actions

end Tracked

/-! ## What can be told of the cursor -/

/-- A move to a position, as the moment that it makes. -/
theorem moves_of_seek (h : d.session.player.Seated) (a : Action) (position : Nat) :
    Moment.Moves
      ⟨d, a, [.stepIndex d.session.phase (d.session.player.seek position).current],
        .step ((d.session.player.seek position).step?.map fun step => step.view.1),
        { d with session := { d.session with player := d.session.player.seek position } }⟩
      (d.session.player.seek position).current := by
  have heq := Player.seek_eq d.session.player position
  refine ⟨?_, rfl, ?_, ?_⟩
  · exact congrArg (fun p => { d with session := { d.session with player := p } }) heq
  · rw [← Player.trace_seek d.session.player position]
    rfl
  · rw [← Player.size_seek d.session.player position,
      ← (h.seek position).step?_eq_none_iff, Response.step.injEq, Option.map_eq_none_iff]

/-- An execution that is applied is shown whole. -/
theorem plays_of_applied {actions : List Action} {config : Config} {text : String} {n : Nat}
    {a : Answer} {f : Flight} {x : Summary}
    (hm : m ∈ (initial config text).run digest actions) (ha : m.action = .answer n a)
    (hf : m.before.flight? n = some f) (hc : f.command = .interpreter)
    (hx : m.response = .ended (.applied x)) :
    ∃ raw reply, a = .text reply ∧
      Reply.decode .interpreter reply = .ok (.ok (.interpreter raw)) ∧ m.Plays raw x := by
  obtain ⟨past, later, hrun⟩ := List.append_of_mem hm
  obtain ⟨xs, b, ys, -, -, rfl, -⟩ := run_eq_append_cons hrun
  have htracked := Tracked.afterAll digest config text xs
  obtain ⟨v, hv, hfinished⟩ := (happens_moment digest _ b).ends ha hf
  obtain rfl : v = .applied x := Response.ended.inj (hv.symm.trans hx)
  obtain ⟨f', hf', -, hafter⟩ := (happens_moment digest _ b).finished ha hx
  have hdocument := congrArg Desk.document hafter
  obtain ⟨raw, reply, hreply, hdecode, hplays, happlied, hcount⟩ :=
    hfinished.plays hc (htracked.abreast.of_fits hf)
  rw [← hdocument] at hplays happlied
  have hsize : Player.size _ = Trace.size _ := congrArg List.length hplays.steps
  refine ⟨raw, reply, hreply, hdecode, hplays.steps, ?_, ?_, ?_, hcount⟩
  · rw [hsize]
    exact hplays.current
  · rw [Trace.renderable, hplays.steps, ← Trace.renderable, Trace.renderable_ofRaw, hsize]
  · rw [hsize]
    exact happlied

/-- **A desk on which execution, cursor and markers agree.** -/
structure Synchronous (digest : Digest) (run : List Moment) (d : Desk) : Prop where
  /-- The cursor is nowhere exactly if there are no steps. -/
  nowhere : d.session.player.current = none ↔ d.session.player.size = 0
  /-- Otherwise it is on one of them. -/
  inside : ∀ i, d.session.player.current = some i → i < d.session.player.size
  /-- There is one marker for each step, in order, each at its step and
  with its position. -/
  markers : d.session.store.layer .markers =
    d.session.player.trace.steps.mapIdx fun i step => ⟨step.span, none, .marker i⟩
  /-- The widget marks the step that the cursor is on. -/
  told : stepTold (Marginalia.told run) = d.session.player.current
  /-- A position is gone to exactly if there is a step. -/
  seek : ∀ i, (d.moment digest (.seek i)).Moves
    (if i < d.session.player.size then some i else d.session.player.current)
  /-- To move on stops at the last step, -/
  next : (d.moment digest .next).Moves
    (d.session.player.current.map fun i => min (i + 1) (d.session.player.size - 1))
  /-- and to move back at the first. -/
  prev : (d.moment digest .prev).Moves (d.session.player.current.map (· - 1))
  /-- An execution that is applied is shown whole and from its first step
  on. -/
  applied : ∀ m ∈ run, ∀ n a f x, m.action = .answer n a → m.before.flight? n = some f →
    f.command = .interpreter → m.response = .ended (.applied x) →
    ∃ raw reply, a = .text reply ∧
      Reply.decode .interpreter reply = .ok (.ok (.interpreter raw)) ∧ m.Plays raw x

/-- **At every point of every run the player, the markers and the widget
are at one.** -/
theorem run_synchronous (digest : Digest) (config : Config) (text : String)
    (actions : List Action) :
    Synchronous digest ((initial config text).run digest actions)
      ((initial config text).afterAll digest actions) := by
  have h := Tracked.afterAll digest config text actions
  have hseated := h.inStep.seated
  refine ⟨hseated.none_iff, hseated.lt_size, h.inStep.markers, h.told, ?_, ?_, ?_, ?_⟩
  · intro i
    rw [← Player.current_seek]
    exact moves_of_seek hseated (.seek i) i
  · rw [← hseated.current_next]
    exact moves_of_seek hseated .next _
  · rw [← hseated.current_prev]
    exact moves_of_seek hseated .prev _
  · intro m hm n a f x ha hf hc hx
    exact plays_of_applied hm ha hf hc hx

end Desk

end Marginalia
