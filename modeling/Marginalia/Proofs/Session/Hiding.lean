import Marginalia.Proofs.Session.Freshness
import Marginalia.Proofs.Session.Independence
import Marginalia.Proofs.Text.Lines

/-!
# Session — lines are hidden once

A render lists lines to hide, and their spans are hidden when its reply
is applied, unless they were hidden before. What was hidden is forgotten
when a change is told. So a `Stretch` of a run in which no change is told
hides what its applied renders want, in order and each span once
(`Stretch.hides_told`), and nothing else: a render that is turned away,
comes too late or gets no payload takes nothing of it away.

The induction is on the moments of the stretch. What it carries is that
the session remembers exactly what the stretch has hidden so far
(`Desk.hidden_afterAll`).
-/

namespace Marginalia

/-- **What is new** is what was not seen, with repetitions left out. -/
theorem fresh_eq_eraseDups (seen spans : List Span) :
    fresh seen spans = (spans.filter (· ∉ seen)).eraseDups := by
  induction spans generalizing seen with
  | nil => rfl
  | cons span spans ih =>
    have hmore : (spans.filter (· ∉ span :: seen)) =
        (spans.filter (· ∉ seen)).filter fun span' => !span' == span := by
      rw [List.filter_filter]
      refine List.filter_congr fun span' _ => ?_
      by_cases hsame : span' = span <;> simp [hsame]
    rw [fresh]
    by_cases hseen : span ∈ seen
    · rw [if_pos hseen, ih, List.filter_cons_of_neg (by simpa using hseen)]
    · rw [if_neg hseen, ih, List.filter_cons_of_pos (by simpa using hseen), List.eraseDups_cons,
        hmore]

/-! ## One moment -/

namespace Session

variable {digest : Digest} {s s' : Session} {d : Document} {f : Flight} {a : Answer}
variable {notices : List Notice} {v : Verdict} {x : Summary}

/-- A payload that is applied hides what is new of what its flight
brings, and the session remembers it. -/
theorem Finished.hides (h : Finished digest s d f a s' notices (.applied x)) :
    hides notices = fresh s.hidden f.hidden ∧
      s'.hidden = s.hidden ++ fresh s.hidden f.hidden := by
  cases h with
  | @applied _ t _ _ _ hl =>
    have hremembered : t.hidden = s.hidden := (takesIn_of_apply hl).hidden
    rw [hides_landing, ← hremembered]
    exact ⟨rfl, rfl⟩

/-- No answer changes the settings. -/
theorem Finished.config (h : Finished digest s d f a s' notices v) : s'.config = s.config := by
  cases h with
  | applied _ _ hl => exact (takesIn_of_apply hl).config
  | _ => rfl

end Session

namespace Happens

variable {digest : Digest} {m : Moment}

/-- Nothing is hidden but with a payload that is applied. -/
theorem hides_eq_nil (h : Happens digest m) (hm : ∀ x, m.response ≠ .ended (.applied x)) :
    hides m.notices = [] := by
  cases h with
  | told => rfl
  | answered _ hf =>
    obtain ⟨-, hquiet, -⟩ := hf.keeps fun x hx => hm x (congrArg Response.ended hx)
    refine List.filterMap_eq_nil_iff.mpr fun notice hnotice => ?_
    have hunseen := hquiet notice hnotice
    cases notice with
    | hide _ _ => cases hunseen
    | _ => rfl
  | _ => rfl

/-- **A session remembers what is hidden**, until a change is told. -/
theorem hidden (h : Happens digest m) (hm : m.action ≠ .changed) :
    m.after.session.hidden = m.before.session.hidden ++ hides m.notices := by
  by_cases happlied : ∃ x, m.response = .ended (.applied x)
  · obtain ⟨x, hx⟩ := happlied
    rcases h.of_ended hx with ⟨-, hbusy, -⟩ | ⟨n, a, f, -, -, hfinished, -⟩
    · cases hbusy
    · rw [hfinished.hides.1, hfinished.hides.2]
  · have hno : ∀ x, m.response ≠ .ended (.applied x) := fun x hx => happlied ⟨x, hx⟩
    rw [h.hides_eq_nil hno, List.append_nil]
    cases h with
    | told => exact absurd rfl hm
    | started hs =>
      obtain ⟨-, rfl, -⟩ := Session.start_eq_some hs
      rfl
    | answered _ hf => exact (hf.keeps fun x hx => hno x (congrArg Response.ended hx)).1.hidden
    | _ => rfl

/-- The settings stay as they are. -/
theorem config (h : Happens digest m) :
    m.after.session.config = m.before.session.config := by
  cases h with
  | started hs =>
    obtain ⟨-, rfl, -⟩ := Session.start_eq_some hs
    rfl
  | answered _ hf => exact hf.config
  | _ => rfl

/-- A render gets the next number. -/
theorem eq_started (h : Happens digest m) {n : Nat} (hn : m.response = .waiting n) :
    n = m.before.started := by
  cases h with
  | started _ =>
    cases hn
    rfl
  | _ => cases hn

end Happens

/-! ## What renders want hidden -/

/-- The spans of the lines that a render lists, in the text that was
sent. A line that is not in the text has none. -/
def Render.listed (r : Render) (request : Request) : List Span :=
  r.hidden.filterMap (Lines.ofText request.text).span?

/-- The render that is started under a number at a moment, and its
request. -/
def Moment.sent? (m : Moment) (n : Nat) : Option (Render × Request) :=
  match m.action, m.response, m.notices with
  | .start r, .waiting k, [.call request] => if k = n then some (r, request) else none
  | _, _, _ => none

/-- **What is wanted at a moment of a stretch**: what a render lists that
was started in the stretch and is applied at the moment. -/
def wanted (stretch : List Moment) (m : Moment) : List Span :=
  match m.action, m.response with
  | .answer n _, .ended (.applied _) =>
    match stretch.findSome? (·.sent? n) with
    | some (r, request) => r.listed request
    | none => []
  | _, _ => []

theorem Moment.sent?_eq_some_iff {m : Moment} {n : Nat} {r : Render} {request : Request} :
    m.sent? n = some (r, request) ↔
      m.action = .start r ∧ m.response = .waiting n ∧ m.notices = [.call request] := by
  unfold Moment.sent?
  split
  · rename_i r' k request' haction hresponse hnotices
    rw [haction, hresponse, hnotices]
    simp only [Option.ite_none_right_eq_some, Option.some.injEq, Prod.mk.injEq, Action.start.injEq,
      Response.waiting.injEq, List.cons.injEq, Notice.call.injEq, and_true]
    tauto
  · rename_i hother
    simp only [reduceCtorEq, false_iff]
    rintro ⟨haction, hresponse, hnotices⟩
    exact hother r n request haction hresponse hnotices

/-- Where nothing is applied, nothing is wanted. -/
theorem wanted_eq_nil {stretch : List Moment} {m : Moment}
    (h : ∀ x, m.response ≠ .ended (.applied x)) : wanted stretch m = [] := by
  unfold wanted
  split
  · rename_i x _ hresponse
    exact absurd hresponse (h x)
  · rfl

namespace Desk

variable {digest : Digest} {d : Desk} {config : Config} {text : String}
variable {actions : List Action} {earlier before after later stretch between : List Moment}
variable {m start finish : Moment} {request : Request} {r : Render} {v : Verdict} {x : Summary}
variable {n : Nat}

theorem config_afterAll (digest : Digest) (d : Desk) (actions : List Action) :
    (d.afterAll digest actions).session.config = d.session.config :=
  run_induction (P := fun _ d' => d'.session.config = d.session.config) rfl
    (fun _ _ hm ih => hm.config.trans ih) actions

/-- What is remembered of the lines of a render is what it lists, if
lines are hidden at all. -/
theorem Meets.hidden {a : Answer} {f : Flight}
    (h : Meets digest start between finish request v n a f) (hr : start.action = .start r) :
    f.hidden = if start.before.session.config.hides then r.listed request else [] := by
  obtain ⟨r', hr', hstart⟩ := h.departs.started
  obtain rfl : r' = r := Action.start.inj (hr'.symm.trans hr)
  rw [← h.request]
  obtain ⟨-, -, rfl⟩ := Session.start_eq_some hstart
  rfl

/-- **What an applied render hides** is what is new of what it lists. -/
theorem Course.hides
    (h : Course ((initial config text).run digest actions) start between finish request
      (.applied x))
    (hr : start.action = .start r) :
    hides finish.notices =
      fresh finish.before.session.hidden (if config.hides then r.listed request else []) := by
  obtain ⟨earlier, later, hrun⟩ := h.placed
  obtain ⟨xs, b, ys, -, -, hstart, -⟩ := run_eq_append_cons hrun
  have hconfig : start.before.session.config = config := by
    rw [hstart]
    exact config_afterAll digest (initial config text) xs
  obtain ⟨n, a, f, -, hmeets⟩ := h.meets
  rw [hmeets.finished.hides.1, hmeets.hidden hr, hconfig]

/-- A number is given once. -/
theorem ne_of_waiting
    (h : (initial config text).run digest actions = earlier ++ m :: later)
    (hm : m.response = .waiting n) (hstart : start ∈ earlier) : start.response ≠ .waiting n := by
  intro hn
  have hlt := (Accounted.before h).issued start hstart n hn
  have hhappens : Happens digest m :=
    happens_of_mem (h ▸ List.mem_append_right _ List.mem_cons_self)
  have heq := hhappens.eq_started hm
  omega

/-! ## Stretches -/

/-- **A stretch of a run** in which no change is told. It begins with the
run, or right after a change. -/
structure Stretch (run earlier stretch later : List Moment) : Prop where
  placed : run = earlier ++ (stretch ++ later)
  opened : ∀ m, earlier.getLast? = some m → m.action = .changed
  unchanged : ∀ m ∈ stretch, m.action ≠ .changed

namespace Stretch

variable {run : List Moment}

/-- Up to any of its moments a stretch is a stretch. -/
theorem part (h : Stretch run earlier (before ++ m :: after) later) :
    Stretch run earlier before (m :: after ++ later) where
  placed := by rw [h.placed, List.append_assoc]
  opened := h.opened
  unchanged m hm := h.unchanged m (List.mem_append_left _ hm)

/-- Where a moment of a stretch stands in the run. -/
theorem run_eq (h : Stretch run earlier (before ++ m :: after) later) :
    run = (earlier ++ before) ++ m :: (after ++ later) := by
  rw [h.placed, List.append_assoc, List.append_assoc, List.cons_append]

end Stretch

/-- **A session remembers what was hidden in the stretch** that it is
in. -/
theorem hidden_afterAll (h : Stretch ((initial config text).run digest actions) earlier before []) :
    ((initial config text).afterAll digest actions).session.hidden = hides (told before) := by
  induction before using List.reverseRecOn generalizing actions with
  | nil =>
    -- nothing was hidden at the start of the run, and nothing since a change
    have hrun : (initial config text).run digest actions = earlier := by simpa using h.placed
    rcases List.eq_nil_or_concat' earlier with rfl | ⟨past, change, rfl⟩
    · cases actions with
      | nil => rfl
      | cons _ _ => cases hrun
    · have hchange := h.opened change (by simp)
      obtain ⟨xs, b, rfl, -, rfl⟩ := run_eq_concat hrun
      rw [afterAll_concat]
      exact ((happens_moment digest _ b).blank_of_changed hchange).hidden
  | append_singleton before m ih =>
    have hrun : (initial config text).run digest actions = (earlier ++ before) ++ [m] := by
      simpa using h.placed
    obtain ⟨xs, b, rfl, hxs, hm⟩ := run_eq_concat hrun
    have hunchanged := h.unchanged m (by simp)
    have hsofar := ih
      ⟨by rw [← hxs, List.append_nil], h.opened, fun m hm => h.unchanged m (by simp [hm])⟩
    rw [afterAll_concat, told_concat, hides_append, ← hsofar, hm]
    exact (happens_moment digest _ b).hidden (hm ▸ hunchanged)

namespace Stretch

/-- At a moment of a stretch the session remembers what was hidden before
it. -/
theorem hidden_before
    (h : Stretch ((initial config text).run digest actions) earlier (before ++ m :: after)
      later) :
    m.before.session.hidden = hides (told before) := by
  obtain ⟨xs, b, ys, -, hxs, rfl, -⟩ := run_eq_append_cons h.run_eq
  exact hidden_afterAll
    ⟨by rw [← hxs, List.append_nil], h.opened, h.part.unchanged⟩

/-- **What is applied in a stretch was started in it.** -/
theorem exists_course
    (h : Stretch ((initial config text).run digest actions) earlier stretch later)
    (hm : m ∈ stretch) (hx : m.response = .ended (.applied x)) :
    ∃ start between request, Course stretch start between m request (.applied x) := by
  obtain ⟨before, after, rfl⟩ := List.append_of_mem hm
  have hrun := h.run_eq
  obtain hnil | ⟨past, change, rfl⟩ := List.eq_nil_or_concat' earlier
  · have hhappens : Happens digest m :=
      happens_of_mem (hrun ▸ List.mem_append_right _ List.mem_cons_self)
    rcases hhappens.of_ended hx with ⟨-, hbusy, -⟩ | ⟨n, a, f, ha, -⟩
    · cases hbusy
    obtain ⟨start, between, request, ⟨past, hpast⟩, hcourse⟩ := Desk.exists_course hrun ha hx
    rw [hnil, List.nil_append] at hpast
    exact ⟨start, between, request, ⟨past, after, by simp [hpast]⟩, hcourse.answered⟩
  · have hchange := h.opened change (by simp)
    rw [List.append_assoc past, List.singleton_append] at hrun
    obtain ⟨start, between, request, hcourse⟩ := exists_course_since hrun hchange hx
    have hlonger := hcourse.mono [] after
    exact ⟨start, between, request, by simpa using hlonger⟩

/-- The render that is started under a number is the one that is found
under it. -/
theorem sent?_eq_some
    (h : Stretch ((initial config text).run digest actions) earlier stretch later)
    (hstart : start ∈ stretch) (hsent : start.sent? n = some (r, request)) :
    stretch.findSome? (·.sent? n) = some (r, request) := by
  obtain ⟨before, after, rfl⟩ := List.append_of_mem hstart
  have hwaiting := (Moment.sent?_eq_some_iff.mp hsent).2.1
  have hearlier : before.findSome? (·.sent? n) = none := by
    rw [List.findSome?_eq_none_iff]
    intro m hm
    have hne := ne_of_waiting h.run_eq hwaiting (List.mem_append_right _ hm)
    exact Option.eq_none_iff_forall_ne_some.mpr fun sent hm =>
      hne (Moment.sent?_eq_some_iff.mp hm).2.1
  rw [List.findSome?_append, hearlier, List.findSome?_cons, hsent]
  rfl

/-- **What an applied render wants is what it lists.** -/
theorem wanted_eq
    (h : Stretch ((initial config text).run digest actions) earlier stretch later)
    (hcourse : Course stretch start between finish request (.applied x))
    (hr : start.action = .start r) : wanted stretch finish = r.listed request := by
  obtain ⟨⟨_, _, hplaced⟩, r', n, a, hr', hcall, hn, ha, hx⟩ := hcourse
  obtain rfl : r' = r := Action.start.inj (hr'.symm.trans hr)
  have hstart : start ∈ stretch := by
    rw [hplaced]
    exact List.mem_append_right _ List.mem_cons_self
  have hfound := h.sent?_eq_some hstart (Moment.sent?_eq_some_iff.mpr ⟨hr, hn, hcall⟩)
  simp only [wanted, ha, hx, hfound]

/-- **One moment hides what is new of what is wanted at it.** -/
theorem hides_notices (hhides : config.hides = true)
    (h : Stretch ((initial config text).run digest actions) earlier stretch later)
    (hm : m ∈ stretch) :
    hides m.notices = fresh m.before.session.hidden (wanted stretch m) := by
  by_cases happlied : ∃ x, m.response = .ended (.applied x)
  · obtain ⟨x, hx⟩ := happlied
    obtain ⟨start, between, request, hcourse⟩ := h.exists_course hm hx
    obtain ⟨r, -, -, hr, -⟩ := hcourse.answered
    have hrun := hcourse.mono earlier later
    rw [List.append_assoc, ← h.placed] at hrun
    rw [hrun.hides hr, if_pos hhides, h.wanted_eq hcourse hr]
  · have hno : ∀ x, m.response ≠ .ended (.applied x) := fun x hx => happlied ⟨x, hx⟩
    have hhappens : Happens digest m := happens_of_mem (by
      rw [h.placed]
      exact List.mem_append_right _ (List.mem_append_left _ hm))
    rw [hhappens.hides_eq_nil hno, wanted_eq_nil hno]
    rfl

/-- **A stretch hides what is wanted in it**, in order and each span
once; so does every part from its beginning. -/
theorem hides_told (hhides : config.hides = true)
    (h : Stretch ((initial config text).run digest actions) earlier (before ++ after) later) :
    hides (told before) = fresh [] (before.flatMap (wanted (before ++ after))) := by
  obtain ⟨stretch, hstretch⟩ : ∃ stretch, stretch = before ++ after := ⟨_, rfl⟩
  rw [← hstretch]
  induction before using List.reverseRecOn generalizing after with
  | nil => rfl
  | append_singleton before m ih =>
    rw [List.append_assoc, List.singleton_append] at h hstretch
    have hsofar := ih h hstretch
    have hnotices := h.hides_notices hhides (List.mem_append_right _ List.mem_cons_self)
    rw [h.hidden_before, ← hstretch] at hnotices
    rw [told_concat, hides_append, List.flatMap_append, fresh_append, List.nil_append, hnotices,
      hsofar, List.flatMap_singleton]

/-- **One moment of a stretch hides what is wanted first at it.** -/
theorem hides_first (hhides : config.hides = true)
    (h : Stretch ((initial config text).run digest actions) earlier (before ++ m :: after)
      later) :
    hides m.notices =
      ((wanted (before ++ m :: after) m).filter
        (· ∉ before.flatMap (wanted (before ++ m :: after)))).eraseDups := by
  have hmem : ∀ span, span ∈ m.before.session.hidden ↔
      span ∈ before.flatMap (wanted (before ++ m :: after)) := by
    intro span
    rw [h.hidden_before, h.hides_told hhides, mem_fresh]
    simp only [List.not_mem_nil, not_false_eq_true, and_true]
  rw [h.hides_notices hhides (List.mem_append_right _ List.mem_cons_self), fresh_congr hmem,
    fresh_eq_eraseDups]

end Stretch

/-! ## Together -/

/-- **A stretch in which lines are hidden once.** -/
structure HidesWanted (stretch : List Moment) : Prop where
  /-- What is applied in the stretch was started in it, -/
  started : ∀ m ∈ stretch, ∀ x, m.response = .ended (.applied x) →
    ∃ start between request, Course stretch start between m request (.applied x)
  /-- and wants the lines hidden that it lists. -/
  listed : ∀ start between finish request x r,
    Course stretch start between finish request (.applied x) → start.action = .start r →
      wanted stretch finish = r.listed request
  /-- Nothing else is wanted. -/
  unwanted : ∀ m, (∀ x, m.response ≠ .ended (.applied x)) → wanted stretch m = []
  /-- All that is wanted is hidden, in order and without repetitions, -/
  hidden : hides (told stretch) = (stretch.flatMap (wanted stretch)).eraseDups
  distinct : (hides (told stretch)).Nodup
  /-- and at the moment at which it is wanted first. -/
  first : ∀ before m after, stretch = before ++ m :: after →
    hides m.notices =
      ((wanted stretch m).filter (· ∉ before.flatMap (wanted stretch))).eraseDups

/-- **A run in which lines are hidden once.** -/
structure HidesOnce (config : Config) (run : List Moment) : Prop where
  /-- Nothing is hidden where lines are not to be. -/
  disabled : config.hides = false → hides (told run) = []
  /-- Elsewhere every stretch hides what its renders want. -/
  enabled : config.hides = true → ∀ earlier stretch later, Stretch run earlier stretch later →
    HidesWanted stretch
  /-- In one text no two lines share a span, -/
  lines_distinct : ∀ text i j span, (Lines.ofText text).span? i = some span →
    (Lines.ofText text).span? j = some span → i = j
  /-- so the span of a line is wanted exactly where the line is listed, and
  repeated spans are repeated lines. -/
  mem_listed : ∀ (r : Render) request line span,
    (Lines.ofText request.text).span? line = some span →
      (span ∈ r.listed request ↔ line ∈ r.hidden)
  eraseDups_listed : ∀ (r : Render) request,
    (r.listed request).eraseDups = r.hidden.eraseDups.filterMap (Lines.ofText request.text).span?

/-- Where lines are not to be hidden, no moment hides any. -/
theorem hides_notices_of_disabled (hhides : config.hides = false)
    (hm : m ∈ (initial config text).run digest actions) : hides m.notices = [] := by
  have hhappens := happens_of_mem hm
  by_cases happlied : ∃ x, m.response = .ended (.applied x)
  · obtain ⟨x, hx⟩ := happlied
    rcases hhappens.of_ended hx with ⟨-, hbusy, -⟩ | ⟨n, a, f, ha, -⟩
    · cases hbusy
    obtain ⟨past, later, hrun⟩ := List.append_of_mem hm
    obtain ⟨start, between, request, -, hcourse⟩ := exists_course hrun ha hx
    obtain ⟨r, -, -, hr, -⟩ := hcourse.answered
    rw [hcourse.hides hr, if_neg (by simp [hhides])]
    rfl
  · exact hhappens.hides_eq_nil fun x hx => happlied ⟨x, hx⟩

/-- **In every run lines are hidden once**, whatever is rendered, answered
and edited. -/
theorem run_hidesOnce (digest : Digest) (config : Config) (text : String)
    (actions : List Action) :
    HidesOnce config ((initial config text).run digest actions) where
  disabled hhides := by
    rw [hides, told, List.filterMap_flatMap, List.flatMap_eq_nil_iff]
    exact fun m hm => hides_notices_of_disabled hhides hm
  enabled hhides earlier stretch later h := by
    have htold : hides (told stretch) = fresh [] (stretch.flatMap (wanted stretch)) := by
      have hsplit : Stretch ((initial config text).run digest actions) earlier (stretch ++ [])
          later := by rwa [List.append_nil]
      have hwhole := hsplit.hides_told hhides
      rwa [List.append_nil] at hwhole
    exact {
      started := fun m hm x hx => h.exists_course hm hx
      listed := fun start between finish request x r hcourse hr => h.wanted_eq hcourse hr
      unwanted := fun m hm => wanted_eq_nil hm
      hidden := by
        rw [htold, fresh_eq_eraseDups]
        simp
      distinct := htold ▸ nodup_fresh [] _
      first := by
        rintro before m after rfl
        exact h.hides_first hhides }
  lines_distinct _ _ _ _ hi hj := Lines.span?_inj hi hj
  mem_listed r _ _ _ hspan := Lines.mem_filterMap_span? hspan r.hidden
  eraseDups_listed r request := Lines.eraseDups_filterMap_span? request.text r.hidden

/-- The render that came too late leaves the empty last line to the next
one, which hides it with a line that it lists twice. -/
example :
    ((initial .initial "f(x)\n").run (fun _ => 0)
      [.start ⟨.boundaries, [1]⟩, .edit (.delete ⟨0, 1⟩), .answer 0 (.text "\x7b\"Ok\":[]\x7d"),
        .start ⟨.boundaries, [0, 1, 7, 0]⟩, .answer 1 (.text "\x7b\"Ok\":[]\x7d"),
        .start ⟨.boundaries, [1, 0]⟩, .answer 2 (.text "\x7b\"Ok\":[]\x7d")]).map
      (fun m => hides m.notices) = [[], [], [], [], [⟨0, 4⟩, ⟨4, 4⟩], [], []] := by
  decide +kernel

end Desk

end Marginalia
