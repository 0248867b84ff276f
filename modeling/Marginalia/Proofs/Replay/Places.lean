import Marginalia.Proofs.Exchange.Canonical
import Marginalia.Proofs.Replay.Telling
import Marginalia.Proofs.Session.Showing
import Marginalia.Proofs.State.Included
import Marginalia.Proofs.Text.Position
import Marginalia.Proofs.Trace.Sorting
import Mathlib

/-!
# Replay — places in print

A place is printed by line and column, one more than they are counted from
zero (`Counted`). Both are sums of machine words, and in a text that fits
in memory the line never is too large. The column is too large for one
offset alone, the largest that a message can name, and only where no
newline is before it (`counted_iff`): there the replay breaks off.

Lines that are hidden lie in the text, and so do the steps of an
execution. Uses, statements and loans lie wherever the payload says
(`Job.Names`): nothing is edited between the request and the reply, so
they keep their places, and nothing holds these to the text
(`tells_notices`). So all places are printed as they are counted, or else
the payload names that one offset in a text of one line and the replay
breaks off (`printsPlaces_iff`).
-/

namespace Marginalia

/-! ## Lines of a text that fits in memory -/

namespace Lines

variable {text : List Char} {offset : Nat}

/-- There are no more lines than newlines, and one. -/
theorem line_le_length (text : List Char) (offset : Nat) :
    ((ofChars text).position offset).1 ≤ text.length := by
  obtain ⟨start, hupto, -⟩ := upto_position text offset
  have hlt : ((ofChars text).position offset).1 < (ofChars text).count :=
    (List.getElem?_eq_some_iff.mp hupto.starts).1
  rw [count_ofChars] at hlt
  have := List.count_le_length (a := '\n') (l := text)
  omega

theorem column_le (text : List Char) (offset : Nat) :
    ((ofChars text).position offset).2 ≤ offset := by
  obtain ⟨start, -, hcolumn⟩ := upto_position text offset
  rw [hcolumn]
  exact Nat.sub_le _ _

/-- Behind a newline no column is as large as the offset. -/
theorem column_lt (h : '\n' ∈ text) (hoffset : text.length ≤ offset) :
    ((ofChars text).position offset).2 < offset := by
  obtain ⟨start, hupto, hcolumn⟩ := upto_position text offset
  obtain ⟨k, hk⟩ := List.mem_iff_getElem?.mp h
  have hmem : k + 1 ∈ (ofChars text).starts := mem_starts_iff.mpr (.inr ⟨k, hk, rfl⟩)
  obtain ⟨j, hj⟩ := List.mem_iff_getElem?.mp hmem
  have hle := le_length_of_mem_starts hmem
  have hlast := hupto.last j (k + 1) hj (by omega)
  -- so the last start is this one, or one after it
  have hstart := mt (lt_iff_of_starts hupto.starts hj).mp (by omega)
  have := hupto.le
  omega

/-- A text without newlines is one line. -/
theorem position_of_notMem (h : '\n' ∉ text) (offset : Nat) :
    (ofChars text).position offset = (0, offset) := by
  rw [position, ofChars, startsAfter_of_notMem h]
  rfl

end Lines

/-! ## Offsets that a payload names -/

/-- **The offsets at which a payload says that something is to be shown**
for a job. The steps of an execution are not among them, as they are shown
only if they lie in the text. -/
inductive Job.Names : Job → Payload → Nat → Prop
  /-- Where a loan begins. -/
  | loan {view : PermissionsView} {units : List (Outcome BodyFacts)} {body : BodyFacts}
      {loan : Loan} : .ok body ∈ units → loan ∈ body.loans →
      Names (.permissions view) (.permissions units) loan.start
  /-- Where a place is used, if uses are shown. -/
  | use {view : PermissionsView} {units : List (Outcome BodyFacts)} {body : BodyFacts} {u : Use} :
      view.showsUses = true → .ok body ∈ units → u ∈ body.uses →
      Names (.permissions view) (.permissions units) u.location
  /-- Where a statement starts, if statements are shown. -/
  | statement {view : PermissionsView} {units : List (Outcome BodyFacts)} {body : BodyFacts}
      {s : Statement} : view.showsStatements = true → .ok body ∈ units → s ∈ body.statements →
      Names (.permissions view) (.permissions units) s.location.start
  /-- Where a place is used, and nothing else was asked for. -/
  | useAlone {units : List (Outcome BodyUses)} {body : BodyUses} {u : Use} :
      .ok body ∈ units → u ∈ body.uses → Names .boundaries (.boundaries units) u.location

/-- What can be read names machine words. -/
theorem Job.Names.lt_wordBound {job : Job} {p : Payload} {offset : Nat} (h : job.Names p offset)
    (hp : p.Sendable) : offset < wordBound := by
  cases h with
  | loan hbody hloan => exact ((hp _ hbody).loans _ hloan).start
  | use _ hbody hu => exact ((hp _ hbody).uses _ hu).location
  | statement _ hbody hs => exact ((hp _ hbody).statements _ hs).start
  | useAlone hbody hu => exact ((hp _ hbody).uses _ hu).location

namespace Marking

variable {α β : Type} {units : List (Outcome α)} {offset : Nat}

/-- Decorations start where the items of the bodies are that were not
refused. -/
theorem exists_start_decorations (mark : Nat → β → Decoration) (start : β → Nat)
    (hmark : ∀ i b, (mark i b).span.start = start b) (items : α → List β) :
    (∃ d ∈ decorations mark items (accepted units), d.span.start = offset) ↔
      ∃ body, .ok body ∈ units ∧ ∃ b ∈ items body, start b = offset := by
  simp only [decorations, List.mem_flatMap, List.mem_map, Prod.exists]
  constructor
  · rintro ⟨_, ⟨i, body, hbody, b, hb, rfl⟩, rfl⟩
    exact ⟨body, List.mem_of_getElem? (mem_accepted.mp hbody), b, hb, (hmark i b).symm⟩
  · rintro ⟨body, hbody, b, hb, rfl⟩
    obtain ⟨i, hi⟩ := List.mem_iff_getElem?.mp hbody
    exact ⟨mark i b, ⟨i, body, mem_accepted.mpr hi, b, hb, rfl⟩, hmark i b⟩

/-- Of a layer that may be switched off. -/
theorem exists_start_shown (mark : Nat → β → Decoration) (start : β → Nat)
    (hmark : ∀ i b, (mark i b).span.start = start b) (on : Bool) (items : α → List β) :
    (∃ d ∈ shown on (decorations mark items (accepted units)), d.span.start = offset) ↔
      on = true ∧ ∃ body, .ok body ∈ units ∧ ∃ b ∈ items body, start b = offset := by
  cases on with
  | true =>
    rw [shown, if_pos rfl, exists_start_decorations mark start hmark items]
    exact (and_iff_right rfl).symm
  | false => simp [shown]

/-- The starts of what a payload is marked with are the offsets that it
names. -/
theorem exists_start_iff {f : Flight} {p : Payload} {m : Marking} (h : f.marking? p = some m) :
    (∃ d ∈ m.layers.flatMap Prod.snd, d.span.start = offset) ↔ f.job.Names p offset := by
  have huse : ∀ i (u : Use), (u.decoration i).span.start = u.location := fun _ _ => rfl
  have hloan : ∀ i (l : Loan), (l.decoration i).span.start = l.start := fun _ _ => rfl
  have hstatement : ∀ i (s : Statement), (s.decoration i).span.start = s.location.start :=
    fun _ _ => rfl
  obtain ⟨job, epoch, text, fingerprint, hidden⟩ := f
  cases job <;> cases p <;> cases h
  · simp only [ofFacts, List.flatMap_cons, List.flatMap_nil, List.append_nil, List.mem_append,
      or_and_right, exists_or, exists_start_decorations _ _ hloan, exists_start_shown _ _ huse,
      exists_start_shown _ _ hstatement]
    constructor
    · rintro (⟨body, hbody, l, hl, rfl⟩ | ⟨hon, body, hbody, u, hu, rfl⟩ |
        ⟨hon, body, hbody, s, hs, rfl⟩)
      · exact .loan hbody hl
      · exact .use hon hbody hu
      · exact .statement hon hbody hs
    · intro h
      cases h with
      | loan hbody hl => exact .inl ⟨_, hbody, _, hl, rfl⟩
      | use hon hbody hu => exact .inr (.inl ⟨hon, _, hbody, _, hu, rfl⟩)
      | statement hon hbody hs => exact .inr (.inr ⟨hon, _, hbody, _, hs, rfl⟩)
  · simp only [ofUses, List.flatMap_cons, List.flatMap_nil, List.append_nil,
      exists_start_decorations _ _ huse]
    constructor
    · rintro ⟨body, hbody, u, hu, rfl⟩
      exact .useAlone hbody hu
    · intro h
      cases h with
      | useAlone hbody hu => exact ⟨_, hbody, _, hu, rfl⟩

/-- A marker starts in the text. -/
theorem start_le_of_mem_markers {t : Trace} {n : Nat} {d : Decoration}
    (h : d ∈ markers t (t.renderable n)) : d.span.start ≤ n := by
  obtain ⟨i, hi, hd⟩ := List.mem_filterMap.mp h
  obtain ⟨step, hstep, rfl⟩ := Option.map_eq_some_iff.mp hd
  obtain ⟨_, hstep', hfits⟩ := t.mem_renderable.mp hi
  cases hstep.symm.trans hstep'
  have hordered := Span.start_le_stop_of_fits hfits
  exact Nat.le_trans hordered (of_decide_eq_true (Bool.and_eq_true_iff.mp hfits).2)

end Marking

/-! ## What is taken in -/

namespace Session

variable {s s' : Session} {d : Document} {f : Flight} {p : Payload} {l : Landing}

theorem decorations_applyMarking (hstill : ∀ span, d.map? span f.revision = some span)
    (s : Session) (c : Command) (m : Marking) :
    (s.applyMarking d f.revision c m).2.effects.flatMap Effect.decorations =
      m.layers.flatMap Prod.snd := by
  rw [List.flatMap_def, List.flatMap_def]
  exact congrArg List.flatten (Store.decorations_replaceEach hstill s.store m.layers)

theorem decorations_applyTrace (hstill : ∀ span, d.map? span f.revision = some span)
    (s : Session) (length : Nat) (raw : RawTrace) :
    (s.applyTrace d f.revision length raw).2.effects.flatMap Effect.decorations =
      Marking.markers (.ofRaw raw length) ((Trace.ofRaw raw length).renderable d.length) := by
  simp only [applyTrace, Store.replaceAll, Store.moveAll_of_forall hstill, Store.change,
    List.flatMap_cons, List.flatMap_nil, List.append_nil]
  rfl

/-- **What is taken in starts where the payload says, or in the text.** -/
theorem starts_of_apply (hstill : ∀ span, d.map? span f.revision = some span)
    (h : s.apply d f p = .ok (s', l)) :
    (∀ dec ∈ l.effects.flatMap Effect.decorations,
      dec.span.start ≤ d.length ∨ f.job.Names p dec.span.start) ∧
    ∀ offset, f.job.Names p offset →
      ∃ dec ∈ l.effects.flatMap Effect.decorations, dec.span.start = offset := by
  cases hmarking : f.marking? p with
  | some m =>
    rw [apply_of_marking? hmarking] at h
    obtain rfl : (s.applyMarking d f.revision f.command m).2 = l :=
      congrArg Prod.snd (Except.ok.inj h)
    rw [decorations_applyMarking hstill]
    refine ⟨fun dec hdec => .inr ?_, fun offset => (Marking.exists_start_iff hmarking).mpr⟩
    exact (Marking.exists_start_iff hmarking).mp ⟨dec, hdec, rfl⟩
  | none =>
    rcases apply_cases h with ⟨view, units, hjob, rfl, -⟩ | ⟨units, hjob, rfl, -⟩ |
      ⟨_, raw, hjob, rfl, hl⟩
    · simp [Flight.marking?, hjob] at hmarking
    · simp [Flight.marking?, hjob] at hmarking
    · obtain rfl : (s.applyTrace d f.revision f.text.length raw).2 = l := congrArg Prod.snd hl
      rw [decorations_applyTrace hstill]
      refine ⟨fun dec hdec => .inl (Marking.start_le_of_mem_markers hdec), ?_⟩
      intro offset hnames
      rw [hjob] at hnames
      cases hnames

end Session

namespace Replay

variable {text reply : String} {offset : Nat} {ns : List Notice} {d : Decoration} {span : Span}

/-! ## Where the places lie -/

/-- **Where the places lie that a replay tells of**: in the text, or where
the reply says. -/
structure Tells (render : Render) (text reply : String) (ns : List Notice) : Prop where
  /-- No decoration starts anywhere else, -/
  start : ∀ d ∈ dispatched ns, d.span.start ≤ text.length ∨
    ∃ p, Reply.decode render.job.command reply = .ok (.ok p) ∧ render.job.Names p d.span.start
  /-- and wherever the reply says so, one does. -/
  named : ∀ p offset, Reply.decode render.job.command reply = .ok (.ok p) →
    render.job.Names p offset → ∃ d ∈ dispatched ns, d.span.start = offset
  hides : ∀ span ∈ hides ns, span.start ≤ text.length

theorem tells_of_silent {render : Render}
    (hnone : ∀ p, Reply.decode render.job.command reply ≠ .ok (.ok p))
    (hdispatched : dispatched ns = []) (hhides : hides ns = []) : Tells render text reply ns where
  start d hd := by
    rw [hdispatched] at hd
    cases hd
  named p _ hdecode := absurd hdecode (hnone p)
  hides span hspan := by
    rw [hhides] at hspan
    cases hspan

/-- No hidden line starts behind the end of the text. -/
theorem start_le_of_mem_hiddenSpans {render : Render} {config : Config}
    (h : span ∈ render.hiddenSpans config text) : span.start ≤ text.length := by
  rw [Render.hiddenSpans] at h
  split at h
  · obtain ⟨line, -, hline⟩ := List.mem_filterMap.mp h
    obtain ⟨hordered, hstop⟩ := Lines.fits_of_span? hline
    rw [String.length_toList] at hstop
    exact Nat.le_trans hordered hstop
  · cases h

/-- Nothing is told of but the answer, as its flight fits. -/
theorem tells_of_finished {digest : Digest} {config : Config} {render : Render} {s s' : Session}
    {f : Flight} {v : Verdict} (hfits : Session.Fits digest s (.ofText text) f)
    (hjob : f.job = render.job) (hhidden : f.hidden = render.hiddenSpans config text)
    (h : Session.Finished digest s (.ofText text) f (.text reply) s' ns v) :
    Tells render text reply ns := by
  have hcommand : f.command = render.job.command := congrArg Job.command hjob
  have hreply {p : Payload} (hdecode : Reply.decode render.job.command reply = .ok (.ok p)) :
      (Answer.text reply).reply f.command s.config.deadline = .ok (.ok p) :=
    Answer.reply_eq_ok_iff.mpr ⟨reply, rfl, hcommand ▸ hdecode⟩
  cases h with
  | outdated hepoch => exact absurd hfits.epoch hepoch
  | edited _ hprint => exact absurd hfits.fingerprint hprint
  | failed _ hnone =>
    refine tells_of_silent (fun p hdecode => ?_) rfl rfl
    cases hnone.symm.trans (hreply hdecode)
  | refused _ hrefused =>
    refine tells_of_silent (fun p hdecode => ?_) rfl rfl
    cases hrefused.symm.trans (hreply hdecode)
  | @applied p t l _ happlied hl =>
    obtain ⟨_, hraw, hdecode⟩ := Answer.reply_eq_ok_iff.mp happlied
    cases hraw
    have hstill (span : Span) : (Document.ofText text).map? span f.revision = some span :=
      hfits.revision ▸ Document.map?_now (Document.kept_ofText text) span
    obtain ⟨hstart, hnamed⟩ := Session.starts_of_apply hstill hl
    rw [hjob] at hstart hnamed
    rw [hcommand] at hdecode
    refine ⟨?_, ?_, ?_⟩
    · intro d hd
      rw [dispatched, effects_landing] at hd
      exact (hstart d hd).imp_right fun hnames => ⟨p, hdecode, hnames⟩
    · intro p' offset hdecode' hnames
      cases hdecode.symm.trans hdecode'
      rw [dispatched, effects_landing]
      exact hnamed offset hnames
    · intro span hspan
      rw [hides_landing, mem_fresh, hhidden] at hspan
      exact start_le_of_mem_hiddenSpans hspan.1

theorem tells_notices (digest : Digest) (config : Config) (render : Render)
    (text reply : String) : Tells render text reply (notices digest config render text reply) := by
  obtain ⟨s, f, hstart, -, -, -, -, hfits⟩ := exists_start digest config render text
  obtain ⟨-, -, hf⟩ := Session.start_eq_some hstart
  rw [notices, hstart]
  exact tells_of_finished hfits (congrArg Flight.job hf) (congrArg Flight.hidden hf)
    (s.finish_finished digest (.ofText text) f (.text reply))

/-! ## Places in print -/

/-- Line and column of an offset, counted from one. -/
def place (lines : Lines) (offset : Nat) : String :=
  s!"{(lines.position offset).1 + 1}:{(lines.position offset).2 + 1}"

/-- **An offset is printed as it is counted**: its line and its column,
each with one added, which makes a machine word. -/
structure Counted (lines : Lines) (offset : Nat) : Prop where
  line : Word.add? (lines.position offset).1 1 = some ((lines.position offset).1 + 1)
  column : Word.add? (lines.position offset).2 1 = some ((lines.position offset).2 + 1)
  text : positionText? lines offset = some (place lines offset)

theorem counted_iff_lt {lines : Lines} : Counted lines offset ↔
    (lines.position offset).1 + 1 < wordBound ∧ (lines.position offset).2 + 1 < wordBound := by
  constructor
  · rintro ⟨hline, hcolumn, -⟩
    exact ⟨(Word.add?_eq_some.mp hline).2, (Word.add?_eq_some.mp hcolumn).2⟩
  · rintro ⟨hline, hcolumn⟩
    have hline' := Word.add?_eq_some.mpr ⟨rfl, hline⟩
    have hcolumn' := Word.add?_eq_some.mpr ⟨rfl, hcolumn⟩
    refine ⟨hline', hcolumn', ?_⟩
    simp only [positionText?, hline', hcolumn']
    rfl

/-- What is not counted is not printed. -/
theorem counted_iff_ne_none {lines : Lines} :
    Counted lines offset ↔ positionText? lines offset ≠ none := by
  constructor
  · intro h hnone
    cases h.text.symm.trans hnone
  · intro h
    rw [counted_iff_lt]
    by_contra hlarge
    refine h ?_
    simp only [positionText?]
    cases hline : Word.add? (lines.position offset).1 1 with
    | none => rfl
    | some line =>
      cases hcolumn : Word.add? (lines.position offset).2 1 with
      | none => rfl
      | some column =>
        obtain ⟨rfl, hline⟩ := Word.add?_eq_some.mp hline
        obtain ⟨rfl, hcolumn⟩ := Word.add?_eq_some.mp hcolumn
        exact absurd ⟨hline, hcolumn⟩ hlarge

/-- **One offset cannot be counted** at most, and only in a text of one
line. -/
theorem counted_iff (htext : text.length + 1 < wordBound) (hoffset : offset < wordBound) :
    Counted (.ofText text) offset ↔ offset + 1 < wordBound ∨ '\n' ∈ text.toList := by
  have hline := Lines.line_le_length text.toList offset
  have hcolumn := Lines.column_le text.toList offset
  rw [String.length_toList] at hline
  rw [counted_iff_lt, Lines.ofText]
  constructor
  · rintro ⟨-, hlt⟩
    by_cases hnewline : '\n' ∈ text.toList
    · exact .inr hnewline
    · rw [Lines.position_of_notMem hnewline] at hlt
      exact .inl hlt
  · rintro (hlt | hnewline)
    · exact ⟨by omega, by omega⟩
    · rcases Nat.lt_or_ge offset text.toList.length with hinside | hbehind
      · rw [String.length_toList] at hinside
        exact ⟨by omega, by omega⟩
      · have := Lines.column_lt hnewline hbehind
        exact ⟨by omega, by omega⟩

/-- An offset in the text can. -/
theorem counted_of_le (htext : text.length + 1 < wordBound) (h : offset ≤ text.length) :
    Counted (.ofText text) offset :=
  (counted_iff htext (by omega)).mpr (.inl (by omega))

/-! ## The places that are told of -/

/-- **No place is out of reach**: the text has a second line, or no payload
names the largest offset. -/
def InReach (render : Render) (text reply : String) : Prop :=
  '\n' ∈ text.toList ∨ ∀ p, Reply.decode render.job.command reply = .ok (.ok p) →
    ¬ render.job.Names p (wordBound - 1)

namespace Tells

variable {render : Render}

/-- Where no place is out of reach all can be counted, -/
theorem counted (h : Tells render text reply ns) (htext : text.length + 1 < wordBound)
    (hreach : InReach render text reply) (hd : d ∈ dispatched ns) :
    Counted (.ofText text) d.span.start := by
  rcases h.start d hd with hle | ⟨p, hdecode, hnames⟩
  · exact counted_of_le htext hle
  · have hlt : d.span.start < wordBound := hnames.lt_wordBound (Reply.within_of_decode hdecode).1
    rw [counted_iff htext hlt]
    rcases hreach with hnewline | hnone
    · exact .inr hnewline
    · have hne : d.span.start ≠ wordBound - 1 := fun heq => hnone p hdecode (heq ▸ hnames)
      exact .inl (by omega)

/-- and where one is, there is a decoration that cannot. -/
theorem exists_not_counted (h : Tells render text reply ns) (htext : text.length + 1 < wordBound)
    (hreach : ¬ InReach render text reply) :
    ∃ d ∈ dispatched ns, ¬ Counted (.ofText text) d.span.start := by
  rw [InReach, not_or] at hreach
  obtain ⟨hnewline, hnames⟩ := hreach
  push Not at hnames
  obtain ⟨p, hdecode, hnames⟩ := hnames
  obtain ⟨d, hd, hstart⟩ := h.named p (wordBound - 1) hdecode hnames
  refine ⟨d, hd, ?_⟩
  rw [hstart, counted_iff htext (by decide), not_or]
  exact ⟨by decide, hnewline⟩

end Tells

theorem decorationLine?_of_counted {lines : Lines} (h : Counted lines d.span.start) :
    decorationLine? lines d =
      some s!"  {padLeft 6 (place lines d.span.start)} {d.span.text} {d.annotation.label}" := by
  rw [decorationLine?, h.text]
  rfl

theorem hideLine?_of_counted {lines : Lines} (h : Counted lines span.start) :
    hideLine? lines span = some s!"hide {place lines span.start} {span.text}" := by
  rw [hideLine?, h.text]
  rfl

/-- **Where no place is out of reach every line can be printed.** -/
theorem notMem_listing (digest : Digest) (config : Config) {render : Render}
    (htext : text.length + 1 < wordBound) (hreach : InReach render text reply) :
    none ∉ listing digest config render text reply := by
  have htells := tells_notices digest config render text reply
  intro hnone
  rcases unprintable_cases hnone with ⟨d, hd, hline⟩ | ⟨span, hspan, hline⟩
  · rw [decorationLine?_of_counted (htells.counted htext hreach hd)] at hline
    cases hline
  · rw [hideLine?_of_counted (counted_of_le htext (htells.hides span hspan))] at hline
    cases hline

/-- **All places of a replay are printed as they are counted**, and so the
replay does not break off. -/
structure PrintsPlaces (digest : Digest) (config : Config) (render : Render)
    (text reply : String) : Prop where
  status : (replay digest config render text reply).status ≠ 101
  decorations : ∀ d ∈ dispatched (notices digest config render text reply),
    Counted (.ofText text) d.span.start ∧
      s!"  {padLeft 6 (place (.ofText text) d.span.start)} {d.span.text} {d.annotation.label}" ∈
        (replay digest config render text reply).lines
  hides : ∀ span ∈ hides (notices digest config render text reply),
    Counted (.ofText text) span.start ∧
      s!"hide {place (.ofText text) span.start} {span.text}" ∈
        (replay digest config render text reply).lines

/-- **A replay breaks off** at a line that cannot be printed: the lines
before it are all that there is, and the status is one of its own. -/
structure BreaksOff (digest : Digest) (config : Config) (render : Render)
    (text reply : String) : Prop where
  status : (replay digest config render text reply).status = 101
  lines : ∃ rest, listing digest config render text reply =
    (replay digest config render text reply).lines.map some ++ none :: rest
  printed : (replay digest config render text reply).printed =
    String.join ((replay digest config render text reply).lines.map (· ++ "\n"))
  diagnostics : (replay digest config render text reply).diagnostics text = []

theorem breaksOff_of_mem {digest : Digest} {config : Config} {render : Render}
    (h : none ∈ listing digest config render text reply) :
    BreaksOff digest config render text reply := by
  obtain ⟨printed, rest, herror, hls⟩ := printAll_of_mem h
  have hbroken := replay_of_error herror
  constructor
  · rw [hbroken]
    rfl
  · rw [hbroken]
    exact ⟨rest, hls⟩
  · rw [hbroken]
    simp [Record.printed, Record.brokenOff, endLines, endingLines]
  · rw [hbroken]
    rfl

theorem printsPlaces_of_inReach (digest : Digest) (config : Config) {render : Render}
    (htext : text.length + 1 < wordBound) (hreach : InReach render text reply) :
    PrintsPlaces digest config render text reply := by
  have htells := tells_notices digest config render text reply
  obtain ⟨printed, hok, hls⟩ := printAll_of_notMem (notMem_listing digest config htext hreach)
  obtain ⟨hlines, hverdict⟩ := lines_of_ok hok
  have hprinted {line : String} (h : some line ∈ listing digest config render text reply) :
      line ∈ (replay digest config render text reply).lines := by
    rw [hls] at h
    obtain ⟨_, hmem, hline⟩ := List.mem_map.mp h
    cases hline
    rwa [hlines]
  refine ⟨?_, fun d hd => ?_, fun span hspan => ?_⟩
  · rw [Record.status_eq hverdict]
    split <;> decide
  · have hcounted := htells.counted htext hreach hd
    have hmem := mem_lines_of_dispatched (.ofText text) hd
    rw [decorationLine?_of_counted hcounted] at hmem
    exact ⟨hcounted, hprinted hmem⟩
  · have hcounted := counted_of_le htext (htells.hides span hspan)
    have hmem := mem_lines_of_hides (.ofText text) hspan
    rw [hideLine?_of_counted hcounted] at hmem
    exact ⟨hcounted, hprinted hmem⟩

/-- **All places of a replay are printed as they are counted**, in a text
that fits in memory, exactly if none is out of reach. Otherwise the replay
breaks off. -/
theorem printsPlaces_iff (digest : Digest) (config : Config) (render : Render) (reply : String)
    (htext : text.length + 1 < wordBound) :
    (PrintsPlaces digest config render text reply ↔ InReach render text reply) ∧
      (¬ InReach render text reply → BreaksOff digest config render text reply) := by
  have hbreaks (hreach : ¬ InReach render text reply) :
      BreaksOff digest config render text reply := by
    obtain ⟨d, hd, hnot⟩ :=
      (tells_notices digest config render text reply).exists_not_counted htext hreach
    have hnone : decorationLine? (.ofText text) d = none := by
      rw [decorationLine?, not_ne_iff.mp (mt counted_iff_ne_none.mpr hnot)]
      rfl
    have hmem := mem_lines_of_dispatched (.ofText text) hd
    rw [hnone] at hmem
    exact breaksOff_of_mem hmem
  refine ⟨⟨fun hprints => ?_, printsPlaces_of_inReach digest config htext⟩, hbreaks⟩
  by_contra hreach
  exact hprints.status (hbreaks hreach).status

/-- In a text of two lines the largest offset has a column that can be
counted. -/
theorem printsPlaces_of_twoLines :
    let text := "fn main()\n\x7b\x7d"
    let reply := "\x7b\"Ok\":[\x7b\"Ok\":[[0,12],[[18446744073709551615," ++
      "[true,false,false],[true,false,false]]]]\x7d]\x7d"
    text.length + 1 < wordBound ∧
      PrintsPlaces (fun _ => 0) .initial ⟨.boundaries, [0]⟩ text reply ∧
      (replay (fun _ => 0) .initial ⟨.boundaries, [0]⟩ text reply).lines =
        ["boundaries (1 at r0)",
          "  2:18446744073709551606 18446744073709551615..18446744073709551615 R ok",
          "hide 1:1 0..10"] := by
  refine ⟨by decide, ?_, by decide +kernel⟩
  exact (printsPlaces_iff (fun _ => 0) .initial ⟨.boundaries, [0]⟩ _ (by decide)).1.mpr
    (.inl (by decide))

/-- In a text of one line it has none, and the replay breaks off. -/
theorem not_printsPlaces_of_oneLine :
    let text := "fn main() \x7b\x7d"
    let reply := "\x7b\"Ok\":[\x7b\"Ok\":[[0,12],[[18446744073709551615," ++
      "[true,false,false],[true,false,false]]]]\x7d]\x7d"
    ¬ PrintsPlaces (fun _ => 0) .initial ⟨.boundaries, []⟩ text reply ∧
      (replay (fun _ => 0) .initial ⟨.boundaries, []⟩ text reply).printed =
        "boundaries (1 at r0)\n" ∧
      (replay (fun _ => 0) .initial ⟨.boundaries, []⟩ text reply).status = 101 := by
  intro text reply
  have hstatus : (replay (fun _ => 0) .initial ⟨.boundaries, []⟩ text reply).status = 101 := by
    decide +kernel
  exact ⟨fun hprints => hprints.status hstatus, by decide +kernel, hstatus⟩

end Replay

end Marginalia
