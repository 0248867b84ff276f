import Marginalia.Proofs.Session.Independence
import Marginalia.Proofs.Session.Mirror
import Marginalia.Proofs.Text.Document
import Marginalia.Replay.Run

/-!
# Replay — what a replay tells, in print

A replay is a session that lives for one render. Its flight is answered
before anything else can happen, so it fits what it meets
(`exists_start`). What the session tells is listed line by line, and the
list is printed up to the first line that cannot be (`printAll_cases`).
If there is none the replay goes on to the steps, else it is over
(`replay_of_error`).

Every decoration that is dispatched has its line in the list, and so has
every span that is hidden. A line that cannot be printed is one of these
(`unprintable_cases`).
-/

namespace Marginalia

/-- The decorations that are dispatched, in order. -/
def dispatched (notices : List Notice) : List Decoration :=
  (effects notices).flatMap Effect.decorations

namespace Replay

variable {digest : Digest} {config : Config} {render : Render} {text reply : String}
variable {ns : List Notice} {d : Decoration} {span : Span} {printed : List String}

/-! ## Lines that may not be printable -/

/-- **All lines are printed, or those before the first that cannot be.** -/
theorem printAll_cases (ls : List (Option String)) :
    (∃ printed, printAll ls = .ok printed ∧ ls = printed.map some) ∨
      ∃ printed rest, printAll ls = .error printed ∧ ls = printed.map some ++ none :: rest := by
  induction ls with
  | nil => exact .inl ⟨[], rfl, rfl⟩
  | cons l ls ih =>
    cases l with
    | none => exact .inr ⟨[], ls, rfl, rfl⟩
    | some line =>
      rcases ih with ⟨printed, hok, hls⟩ | ⟨printed, rest, herror, hls⟩
      · refine .inl ⟨line :: printed, by rw [printAll, hok], ?_⟩
        rw [List.map_cons, ← hls]
      · refine .inr ⟨line :: printed, rest, by rw [printAll, herror], ?_⟩
        rw [List.map_cons, List.cons_append, ← hls]

/-- All are printed if none is in the way. -/
theorem printAll_of_notMem {ls : List (Option String)} (h : none ∉ ls) :
    ∃ printed, printAll ls = .ok printed ∧ ls = printed.map some := by
  rcases printAll_cases ls with hok | ⟨printed, rest, -, hls⟩
  · exact hok
  · rw [hls] at h
    exact absurd (List.mem_append_right _ List.mem_cons_self) h

theorem printAll_of_mem {ls : List (Option String)} (h : none ∈ ls) :
    ∃ printed rest, printAll ls = .error printed ∧ ls = printed.map some ++ none :: rest := by
  rcases printAll_cases ls with ⟨printed, -, hls⟩ | herror
  · rw [hls] at h
    obtain ⟨line, -, hline⟩ := List.mem_map.mp h
    cases hline
  · exact herror

/-! ## One render -/

/-- The only flight of a replay fits when it is answered. -/
theorem exists_start (digest : Digest) (config : Config) (render : Render) (text : String) :
    ∃ s f, (Session.initial config).start digest (.ofText text) render = some (s, f) ∧
      s.player = .empty ∧ s.ending = none ∧ f.command = render.job.command ∧ f.text = text ∧
      Session.Fits digest s (.ofText text) f :=
  ⟨_, _, rfl, rfl, rfl, rfl, rfl, rfl, rfl⟩

/-- What the session of a replay tells. -/
def notices (digest : Digest) (config : Config) (render : Render) (text reply : String) :
    List Notice :=
  match (Session.initial config).start digest (.ofText text) render with
  | none => []
  | some (s, flight) => (s.finish digest (.ofText text) flight (.text reply)).2.1

/-- The lines that are to be printed before the steps. -/
def listing (digest : Digest) (config : Config) (render : Render) (text reply : String) :
    List (Option String) :=
  (notices digest config render text reply).flatMap (noticeLines (.ofText text))

/-- If they cannot all be printed the replay is over, -/
theorem replay_of_error
    (h : printAll (listing digest config render text reply) = .error printed) :
    replay digest config render text reply = .brokenOff printed := by
  obtain ⟨s, f, hstart, -⟩ := exists_start digest config render text
  simp only [listing, notices, hstart] at h
  simp only [replay, hstart, h]

/-- and else it has printed them. -/
theorem lines_of_ok (h : printAll (listing digest config render text reply) = .ok printed) :
    (replay digest config render text reply).lines = printed ∧
      (replay digest config render text reply).verdict ≠ none := by
  obtain ⟨s, f, hstart, -⟩ := exists_start digest config render text
  simp only [listing, notices, hstart] at h
  simp [replay, hstart, h]

/-- A replay that has not broken off ends as a success or as a failure. -/
theorem Record.status_eq {r : Record} (h : r.verdict ≠ none) :
    r.status = if r.success then 0 else 1 := by
  rw [status]
  split
  · exact absurd ‹_› h
  · rfl

/-! ## Decorations and hidden spans -/

theorem mem_lines_of_dispatched (lines : Lines) (h : d ∈ dispatched ns) :
    decorationLine? lines d ∈ ns.flatMap (noticeLines lines) := by
  simp only [dispatched, effects, transactions, List.mem_flatMap, List.mem_filterMap] at h
  obtain ⟨e, ⟨t, ⟨notice, hnotice, ht⟩, he⟩, hd⟩ := h
  cases notice <;> cases ht
  refine List.mem_flatMap.mpr ⟨_, hnotice, List.mem_flatMap.mpr ⟨e, he, ?_⟩⟩
  obtain ⟨layer, generation, change⟩ := e
  cases change with
  | replaced ds => exact List.mem_cons_of_mem _ (List.mem_map_of_mem hd)
  | cleared => cases hd
  | dropped edited => cases hd

theorem mem_lines_of_hides (lines : Lines) (h : span ∈ hides ns) :
    hideLine? lines span ∈ ns.flatMap (noticeLines lines) := by
  obtain ⟨notice, hnotice, hspan⟩ := List.mem_filterMap.mp h
  cases notice <;> cases hspan
  exact List.mem_flatMap.mpr ⟨_, hnotice, List.mem_singleton_self _⟩

/-- **A line that cannot be printed** is that of a decoration or of a
hidden span. -/
theorem unprintable_cases {lines : Lines} (h : none ∈ ns.flatMap (noticeLines lines)) :
    (∃ d ∈ dispatched ns, decorationLine? lines d = none) ∨
      ∃ span ∈ hides ns, hideLine? lines span = none := by
  obtain ⟨notice, hnotice, hnone⟩ := List.mem_flatMap.mp h
  cases notice with
  | dispatch phase t =>
    obtain ⟨e, he, hnone⟩ := List.mem_flatMap.mp hnone
    have heffects : e ∈ effects ns :=
      List.mem_flatMap.mpr ⟨t, List.mem_filterMap.mpr ⟨_, hnotice, rfl⟩, he⟩
    obtain ⟨layer, generation, change⟩ := e
    cases change with
    | replaced ds =>
      have hmap : none ∈ ds.map (decorationLine? lines) :=
        (List.mem_cons.mp hnone).resolve_left (Option.some_ne_none _).symm
      obtain ⟨d, hd, hline⟩ := List.mem_map.mp hmap
      exact .inl ⟨d, List.mem_flatMap.mpr ⟨_, heffects, hd⟩, hline⟩
    | cleared => cases List.mem_singleton.mp hnone
    | dropped edited => cases List.mem_singleton.mp hnone
  | hide phase span =>
    have hspan : span ∈ hides ns := List.mem_filterMap.mpr ⟨_, hnotice, rfl⟩
    exact .inr ⟨span, hspan, (List.mem_singleton.mp hnone).symm⟩
  | call r => cases hnone
  | stepIndex phase position => cases hnone
  | report phase r => cases hnone

end Replay

end Marginalia
