import Marginalia.Proofs.Session.Mirror
import Marginalia.Proofs.Text.Editing
import Mathlib.Data.List.Sort
import Mathlib.Data.Prod.Lex

/-!
# Session — what is shown of the units of a reply

A reply to `permissions` or `boundaries` brings units, of which any may be
refused. Each layer that is filled shows the items of the others in the
order of their places, each at its span and with the number that its unit
has among all units (`Enumerates`). The places leave no choice
(`Enumerates.unique`), so a layer shows the same of the same items,
whichever command brought them. What the session tells counts every unit
once, as shown or as refused (`Accounts`).

All of this is so for any answer that is taken in, whatever the session
showed before (`Desk.shows_units`).
-/

namespace Marginalia

open Replay (reports)

variable {α β : Type}

/-! ## Units by their numbers -/

namespace Marking

variable {γ : Type} {units : List (Outcome α)} {i : Nat} {a : α} {r : Refusal}

/-- What there is of a list, with the numbers that it has there. -/
def picked (f : β → Option γ) (l : List β) : List (Nat × γ) :=
  l.zipIdx.filterMap fun (b, i) => (f b).map fun c => (i, c)

theorem mem_picked {f : β → Option γ} {l : List β} {c : γ} :
    (i, c) ∈ picked f l ↔ ∃ b, l[i]? = some b ∧ f b = some c := by
  simp only [picked, List.mem_filterMap, Prod.exists, List.mk_mem_zipIdx_iff_getElem?,
    Option.map_eq_some_iff, Prod.mk.injEq]
  constructor
  · rintro ⟨b, i, hb, c, hc, rfl, rfl⟩
    exact ⟨b, hb, hc⟩
  · rintro ⟨b, hb, hc⟩
    exact ⟨b, i, hb, c, hc, rfl, rfl⟩

theorem pairwise_zipIdx (l : List β) : l.zipIdx.Pairwise fun x y => x.2 < y.2 := by
  rw [← List.pairwise_map, List.zipIdx_map_snd]
  exact List.pairwise_lt_range'

theorem pairwise_picked (f : β → Option γ) (l : List β) :
    (picked f l).Pairwise fun x y => x.1 < y.1 := by
  refine List.pairwise_filterMap.mpr ((pairwise_zipIdx l).imp ?_)
  intro x y hxy b hb c hc
  obtain ⟨_, -, rfl⟩ := Option.map_eq_some_iff.mp hb
  obtain ⟨_, -, rfl⟩ := Option.map_eq_some_iff.mp hc
  exact hxy

theorem length_picked (f : β → Option γ) (l : List β) :
    (picked f l).length = l.countP fun b => (f b).isSome := by
  rw [picked, List.length_filterMap_eq_countP]
  conv_rhs => rw [← List.zipIdx_map_fst 0 l, List.countP_map]
  refine List.countP_congr fun x _ => ?_
  simp

theorem accepted_eq (units : List (Outcome α)) : accepted units = picked Except.toOption units := by
  refine congrArg (fun f => units.zipIdx.filterMap f) ?_
  funext ⟨unit, i⟩
  cases unit <;> rfl

/-- Why a unit was refused, if it was. -/
def refusal? : Outcome α → Option Refusal
  | .ok _ => none
  | .error r => some r

theorem refusals_eq (units : List (Outcome α)) : refusals units = picked refusal? units := by
  refine congrArg (fun f => units.zipIdx.filterMap f) ?_
  funext ⟨unit, i⟩
  cases unit <;> rfl

theorem mem_accepted : (i, a) ∈ accepted units ↔ units[i]? = some (.ok a) := by
  rw [accepted_eq, mem_picked]
  constructor
  · rintro ⟨unit, hunit, ha⟩
    cases unit <;> cases ha
    exact hunit
  · exact fun h => ⟨_, h, rfl⟩

theorem mem_refusals : (i, r) ∈ refusals units ↔ units[i]? = some (.error r) := by
  rw [refusals_eq, mem_picked]
  constructor
  · rintro ⟨unit, hunit, hr⟩
    cases unit <;> cases hr
    exact hunit
  · exact fun h => ⟨_, h, rfl⟩

/-- A layer that is switched off shows that there are no items. -/
theorem shown_decorations (on : Bool) (mark : Nat → β → Decoration) (items : α → List β)
    (bodies : List (Nat × α)) :
    Marking.shown on (Marking.decorations mark items bodies) =
      Marking.decorations mark (fun body => if on then items body else []) bodies := by
  cases on with
  | true => rfl
  | false => simp [Marking.shown, Marking.decorations]

end Marking

/-! ## Items by their places -/

/-- The item at a place: in the unit of this number among all units, the
item of this number. -/
def Item (items : α → List β) (units : List (Outcome α)) (place : Nat × Nat) (b : β) : Prop :=
  ∃ body, units[place.1]? = some (.ok body) ∧ (items body)[place.2]? = some b

/-- **The decorations are those of all items**, in the order of their
places. -/
def Enumerates (items : α → List β) (span : β → Span) (note : β → Annotation)
    (units : List (Outcome α)) (ds : List Decoration) : Prop :=
  ∃ entries : List ((Nat × Nat) × β),
    entries.Pairwise (fun x y => Prod.Lex (· < ·) (· < ·) x.1 y.1) ∧
      (∀ place b, (place, b) ∈ entries ↔ Item items units place b) ∧
      ds = entries.map fun (place, b) => ⟨span b, some place.1, note b⟩

/-- All items of these bodies, each with its place. -/
def placed (items : α → List β) (bodies : List (Nat × α)) : List ((Nat × Nat) × β) :=
  bodies.flatMap fun (i, body) => (items body).zipIdx.map fun (b, k) => ((i, k), b)

theorem mem_placed {items : α → List β} {units : List (Outcome α)} {place : Nat × Nat} {b : β} :
    (place, b) ∈ placed items (Marking.accepted units) ↔ Item items units place b := by
  obtain ⟨i, k⟩ := place
  simp only [placed, List.mem_flatMap, List.mem_map, Prod.exists, Prod.mk.injEq,
    Marking.mem_accepted, List.mk_mem_zipIdx_iff_getElem?]
  constructor
  · rintro ⟨i, body, hbody, b, k, hb, ⟨rfl, rfl⟩, rfl⟩
    exact ⟨body, hbody, hb⟩
  · rintro ⟨body, hbody, hb⟩
    exact ⟨i, body, hbody, b, k, hb, ⟨rfl, rfl⟩, rfl⟩

/-- They stand in the order of their units, and within a unit in its own. -/
theorem pairwise_placed (items : α → List β) (units : List (Outcome α)) :
    (placed items (Marking.accepted units)).Pairwise
      fun x y => Prod.Lex (· < ·) (· < ·) x.1 y.1 := by
  refine List.pairwise_flatMap.mpr ⟨?_, ?_⟩
  · rintro ⟨i, body⟩ -
    refine List.pairwise_map.mpr ((Marking.pairwise_zipIdx (items body)).imp ?_)
    intro x y hlt
    exact Prod.Lex.right _ hlt
  · rw [Marking.accepted_eq]
    refine (Marking.pairwise_picked _ units).imp ?_
    rintro ⟨i, body⟩ ⟨j, body'⟩ hlt x hx y hy
    obtain ⟨_, -, rfl⟩ := List.mem_map.mp hx
    obtain ⟨_, -, rfl⟩ := List.mem_map.mp hy
    exact Prod.Lex.left _ _ hlt

/-- The number of the unit is all that a decoration tells of the place. -/
theorem decorations_eq_map_placed (mark : Nat → β → Decoration) (items : α → List β)
    (bodies : List (Nat × α)) :
    Marking.decorations mark items bodies =
      (placed items bodies).map fun (place, b) => mark place.1 b := by
  rw [Marking.decorations, placed, List.map_flatMap]
  refine congrArg (fun f => bodies.flatMap f) ?_
  funext ⟨i, body⟩
  have hitems := congrArg (List.map (mark i)) (List.zipIdx_map_fst 0 (items body))
  rw [List.map_map] at hitems
  show (items body).map (mark i) = ((items body).zipIdx.map _).map _
  rw [List.map_map, ← hitems]
  rfl

namespace Enumerates

variable {items : α → List β} {span : β → Span} {note : β → Annotation}
variable {units : List (Outcome α)} {ds ds' : List Decoration}

/-- **The units are gone through as they come**, and the items of each. -/
theorem decorations (items : α → List β) (span : β → Span) (note : β → Annotation)
    (units : List (Outcome α)) :
    Enumerates items span note units
      (Marking.decorations (fun i b => ⟨span b, some i, note b⟩) items
        (Marking.accepted units)) := by
  refine ⟨placed items (Marking.accepted units), pairwise_placed items units, ?_, ?_⟩
  · intro place b
    exact mem_placed
  · exact decorations_eq_map_placed ..

/-- **There is one such list.** -/
theorem unique (h : Enumerates items span note units ds)
    (h' : Enumerates items span note units ds') : ds = ds' := by
  obtain ⟨entries, hentries, hmem, rfl⟩ := h
  obtain ⟨entries', hentries', hmem', rfl⟩ := h'
  have hasymm : ∀ {x y : Nat × Nat}, Prod.Lex (· < ·) (· < ·) x y →
      ¬Prod.Lex (· < ·) (· < ·) y x := by
    intro x y hxy hyx
    rw [Prod.lex_def] at hxy hyx
    omega
  have hnodup : ∀ {l : List ((Nat × Nat) × β)},
      l.Pairwise (fun x y => Prod.Lex (· < ·) (· < ·) x.1 y.1) → l.Nodup := by
    intro l hl
    refine hl.imp ?_
    rintro x _ hxy rfl
    exact hasymm hxy hxy
  have hperm : entries.Perm entries' := by
    rw [List.perm_ext_iff_of_nodup (hnodup hentries) (hnodup hentries')]
    rintro ⟨place, b⟩
    rw [hmem, hmem']
  have hsame : entries = entries' :=
    hperm.eq_of_pairwise (fun x y _ _ hxy hyx => absurd hyx (hasymm hxy)) hentries hentries'
  rw [hsame]

end Enumerates

/-! ## Layers and accounts -/

/-- **A layer shows all items of the units**, and nothing else. -/
structure Fills (s : Store) (l : Layer) (items : α → List β) (span : β → Span)
    (note : β → Annotation) (units : List (Outcome α)) : Prop where
  enumerates : Enumerates items span note units (s.layer l)
  /-- The units that it shows something of are told in order, -/
  ascending : (s.units l).Pairwise (· < ·)
  /-- and they are those that bring something. -/
  mem_units : ∀ i, i ∈ s.units l ↔ ∃ body, units[i]? = some (.ok body) ∧ items body ≠ []

theorem Enumerates.fills {s : Store} {l : Layer} {items : α → List β} {span : β → Span}
    {note : β → Annotation} {units : List (Outcome α)}
    (h : Enumerates items span note units (s.layer l)) :
    Fills s l items span note units where
  enumerates := h
  ascending := s.pairwise_units l
  mem_units i := by
    obtain ⟨entries, -, hmem, hlayer⟩ := h
    rw [Store.mem_units, hlayer]
    constructor
    · rintro ⟨d, hd, hunit⟩
      obtain ⟨⟨place, b⟩, hentry, rfl⟩ := List.mem_map.mp hd
      obtain ⟨body, hbody, hb⟩ := (hmem place b).mp hentry
      obtain rfl := Option.some.inj hunit
      exact ⟨body, hbody, fun hnil => by simp [hnil] at hb⟩
    · rintro ⟨body, hbody, hne⟩
      obtain ⟨b, bs, hbs⟩ := List.exists_cons_of_ne_nil hne
      have hentry : ((i, 0), b) ∈ entries := (hmem (i, 0) b).mpr ⟨body, hbody, by simp [hbs]⟩
      exact ⟨_, List.mem_map_of_mem hentry, rfl⟩

/-- **Every unit is accounted for.** -/
structure Accounts (c : Command) (units : List (Outcome α)) (notices : List Notice)
    (x : Summary) : Prop where
  applied : x.applied = units.countP Except.isOk
  failed : x.failed = units.countP fun unit => !unit.isOk
  /-- Those that were refused are reported in order, each with its number
  among all units, and nothing else is. -/
  reports : ∃ refusals : List (Nat × Refusal),
    refusals.Pairwise (fun x y => x.1 < y.1) ∧
      (∀ i r, (i, r) ∈ refusals ↔ units[i]? = some (.error r)) ∧
      reports notices = refusals.map fun (i, r) => .body c i r

/-- **What comes of a reply to `permissions`.** A layer that is switched
off is filled with nothing. -/
structure ShowsFacts (view : PermissionsView) (units : List (Outcome BodyFacts))
    (before after : Store) (notices : List Notice) (x : Summary) : Prop where
  accounts : Accounts .permissions units notices x
  loans : Fills after .loans BodyFacts.loans Loan.span
    (fun l => .loan l.key l.issuedAt l.refined) units
  uses : Fills after .uses (fun b => if view.showsUses then b.uses else [])
    (fun u => .point u.location) .use units
  statements : Fills after .statements (fun b => if view.showsStatements then b.statements else [])
    Statement.location .statement units
  /-- The other layer is left as it is, and not told of. -/
  markers : after.slot .markers = before.slot .markers
  told : (effects notices).map Effect.layer = [.loans, .uses, .statements]

/-- **What comes of a reply to `boundaries`.** -/
structure ShowsUses (units : List (Outcome BodyUses)) (before after : Store)
    (notices : List Notice) (x : Summary) : Prop where
  accounts : Accounts .boundaries units notices x
  uses : Fills after .uses BodyUses.uses (fun u => .point u.location) .use units
  /-- The other layers are left as they are, and not told of. -/
  others : ∀ l, l ≠ .uses → after.slot l = before.slot l
  told : (effects notices).map Effect.layer = [.uses]

/-- The uses in a body, of all that is known about it. -/
def BodyFacts.reduced (b : BodyFacts) : BodyUses := ⟨b.body, b.uses⟩

/-- **Uses are shown alike** by both commands. -/
theorem ShowsUses.layer_eq {view : PermissionsView} {facts : List (Outcome BodyFacts)}
    {before after before' after' : Store} {notices notices' : List Notice} {x x' : Summary}
    (h : ShowsUses (facts.map (Except.map BodyFacts.reduced)) before after notices x)
    (h' : ShowsFacts view facts before' after' notices' x') (hview : view.showsUses = true) :
    after.layer .uses = after'.layer .uses := by
  obtain ⟨entries, hentries, hmem, hlayer⟩ := h.uses.enumerates
  refine Enumerates.unique ⟨entries, hentries, ?_, hlayer⟩ h'.uses.enumerates
  intro place u
  rw [hmem]
  -- the units are the same, and so is what they bring of uses
  simp only [Item, List.getElem?_map, hview, if_true]
  constructor
  · rintro ⟨body, hbody, hu⟩
    obtain ⟨unit, hunit, hbody⟩ := Option.map_eq_some_iff.mp hbody
    cases unit with
    | error r => cases hbody
    | ok b =>
      cases hbody
      exact ⟨b, hunit, hu⟩
  · rintro ⟨b, hb, hu⟩
    exact ⟨b.reduced, by rw [hb]; rfl, hu⟩

/-! ## Taking units in -/

/-- **What a marking comes to** that is taken in. -/
structure Marks (m : Marking) (c : Command) (before after : Store) (notices : List Notice)
    (x : Summary) : Prop where
  filled : ∀ l ds, (l, ds) ∈ m.layers → after.layer l = ds
  others : ∀ l, l ∉ m.layers.map Prod.fst → after.slot l = before.slot l
  told : (effects notices).map Effect.layer = m.layers.map Prod.fst
  reports : reports notices = m.refused.map fun (i, r) => .body c i r
  applied : x.applied = m.applied
  failed : x.failed = m.refused.length

namespace Marks

variable {m : Marking} {c : Command} {before after : Store} {notices : List Notice} {x : Summary}

theorem accounts {units : List (Outcome α)} (h : Marks m c before after notices x)
    (happlied : m.applied = (Marking.accepted units).length)
    (hrefused : m.refused = Marking.refusals units) : Accounts c units notices x where
  applied := by
    rw [h.applied, happlied, Marking.accepted_eq, Marking.length_picked]
    refine List.countP_congr fun unit _ => ?_
    cases unit <;> rfl
  failed := by
    rw [h.failed, hrefused, Marking.refusals_eq, Marking.length_picked]
    refine List.countP_congr fun unit _ => ?_
    cases unit <;> rfl
  reports := by
    refine ⟨Marking.refusals units, ?_, fun i r => Marking.mem_refusals, ?_⟩
    · rw [Marking.refusals_eq]
      exact Marking.pairwise_picked _ units
    · rw [h.reports, hrefused]

theorem showsFacts {view : PermissionsView} {units : List (Outcome BodyFacts)}
    (h : Marks (Marking.ofFacts view units) .permissions before after notices x) :
    ShowsFacts view units before after notices x where
  accounts := h.accounts rfl rfl
  loans := by
    refine Enumerates.fills ?_
    rw [h.filled .loans _ List.mem_cons_self]
    exact .decorations _ _ _ units
  uses := by
    refine Enumerates.fills ?_
    rw [h.filled .uses _ (List.mem_cons_of_mem _ List.mem_cons_self), Marking.shown_decorations]
    exact .decorations _ _ _ units
  statements := by
    refine Enumerates.fills ?_
    rw [h.filled .statements _
        (List.mem_cons_of_mem _ (List.mem_cons_of_mem _ List.mem_cons_self)),
      Marking.shown_decorations]
    exact .decorations _ _ _ units
  markers := h.others .markers (by simp [Marking.ofFacts])
  told := h.told

theorem showsUses {units : List (Outcome BodyUses)}
    (h : Marks (Marking.ofUses units) .boundaries before after notices x) :
    ShowsUses units before after notices x where
  accounts := h.accounts rfl rfl
  uses := by
    refine Enumerates.fills ?_
    rw [h.filled .uses _ List.mem_cons_self]
    exact .decorations _ _ _ units
  others l hl := h.others l (by simpa [Marking.ofUses] using hl)
  told := h.told

end Marks

/-- The marking of a payload that brings units for the job of a flight. -/
def Flight.marking? (f : Flight) (p : Payload) : Option Marking :=
  match f.job, p with
  | .permissions view, .permissions units => some (.ofFacts view units)
  | .boundaries, .boundaries units => some (.ofUses units)
  | _, _ => none

namespace Session

variable {s : Session} {d : Document} {f : Flight} {p : Payload} {m : Marking}

/-- It is what is taken in, -/
theorem apply_of_marking? (h : f.marking? p = some m) (s : Session) (d : Document) :
    s.apply d f p = .ok (s.applyMarking d f.revision f.command m) := by
  obtain ⟨job, epoch, text, fingerprint, hidden⟩ := f
  cases job <;> cases p <;> cases h <;> rfl

/-- and it fills no layer twice. -/
theorem nodup_of_marking? (h : f.marking? p = some m) : (m.layers.map Prod.fst).Nodup := by
  obtain ⟨job, epoch, text, fingerprint, hidden⟩ := f
  cases job <;> cases p <;> cases h <;> simp [Marking.ofFacts, Marking.ofUses]

/-- **A payload that is landed on the text it was computed for** comes to
its marking. -/
theorem land_marks (hstill : ∀ span, d.map? span f.revision = some span)
    (h : f.marking? p = some m) (s : Session) :
    ∃ s' notices x, s.land d f p = (s', notices, .applied x) ∧
      Marks m f.command s.store s'.store notices x := by
  refine ⟨_, _, _, by rw [land, apply_of_marking? h], ?_⟩
  refine ⟨?_, ?_, ?_, ?_, rfl, rfl⟩
  · intro l ds hmem
    exact Store.layer_replaceEach hstill (nodup_of_marking? h) hmem s.store
  · intro l hl
    exact Store.slot_replaceEach_of_notMem hl s.store f.revision d.map?
  · rw [effects_landing]
    exact Store.map_layer_replaceEach s.store m.layers f.revision d.map?
  · rw [Replay.reports_landing]
    rfl

/-- **What is applied was landed**: a reply was read, and it brought a
payload. -/
theorem exists_land {digest : Digest} {a : Answer} {x : Summary}
    (h : (s.finish digest d f a).2.2 = .applied x) :
    Fits digest s d f ∧ ∃ raw p, a = .text raw ∧ Reply.decode f.command raw = .ok (.ok p) ∧
      s.finish digest d f a = s.land d f p := by
  have hfinished := finish_finished digest s d f a
  rw [h] at hfinished
  have hfits := hfinished.fits.1
  refine ⟨hfits, ?_⟩
  rw [finish_of_fits hfits, Flight.command_request] at h ⊢
  cases hreply : a.reply f.command s.config.deadline with
  | error o => simp [hreply, fail] at h
  | ok reply =>
    obtain ⟨raw, hraw, hdecode⟩ := Answer.reply_eq_ok_iff.mp hreply
    cases reply with
    | error r => simp [hreply] at h
    | ok p => exact ⟨raw, p, hraw, hdecode, rfl⟩

end Session

namespace Desk

/-- **An answer is taken in**, on a document that was made by any edits. -/
structure Applies (digest : Digest) (d : Desk) (n : Nat) (f : Flight) (a : Answer)
    (x : Summary) : Prop where
  document : ∃ text edits, d.document = (Document.ofText text).editAll edits
  flight : d.flight? n = some f
  response : (d.moment digest (.answer n a)).response = .ended (.applied x)

variable {digest : Digest} {d : Desk} {n : Nat} {f : Flight} {a : Answer} {x : Summary}

/-- In the text that they were computed for all spans lie where they are. -/
theorem map?_of_revision (text : String) (edits : List Edit) {since : Revision}
    (h : since = ((Document.ofText text).editAll edits).revision) (span : Span) :
    ((Document.ofText text).editAll edits).map? span since = some span := by
  rw [h]
  exact Document.map?_now ((Document.kept_ofText text).editAll edits) span

/-- **What is taken in comes to its marking.** -/
theorem Applies.marks (h : d.Applies digest n f a x) :
    ∃ raw p, a = .text raw ∧ Reply.decode f.command raw = .ok (.ok p) ∧
      ∀ m, f.marking? p = some m →
        Marks m f.command d.session.store (d.moment digest (.answer n a)).after.session.store
          (d.moment digest (.answer n a)).notices x := by
  obtain ⟨text, edits, hdocument⟩ := h.document
  have hresponse := h.response
  rw [moment_of_flight? digest h.flight] at hresponse ⊢
  injection hresponse with hverdict
  obtain ⟨hfits, raw, p, hraw, hdecode, hland⟩ := Session.exists_land hverdict
  refine ⟨raw, p, hraw, hdecode, ?_⟩
  intro m hm
  have hstill : ∀ span, d.document.map? span f.revision = some span := by
    rw [hfits.revision, hdocument]
    exact map?_of_revision text edits rfl
  obtain ⟨s', notices, x', hland', hmarks⟩ := Session.land_marks hstill hm d.session
  rw [hland, hland'] at hverdict
  cases hverdict
  rw [hland, hland']
  exact hmarks

theorem Applies.showsFacts (h : d.Applies digest n f a x) {view : PermissionsView}
    (hjob : f.job = .permissions view) : ∃ raw units, a = .text raw ∧
      Reply.decode .permissions raw = .ok (.ok (.permissions units)) ∧
      ShowsFacts view units d.session.store (d.moment digest (.answer n a)).after.session.store
        (d.moment digest (.answer n a)).notices x := by
  obtain ⟨raw, p, hraw, hdecode, hmarks⟩ := h.marks
  simp only [Flight.command, Flight.marking?, hjob] at hdecode hmarks
  have hcommand := Reply.command_of_decode hdecode
  cases p <;> cases hcommand
  exact ⟨raw, _, hraw, hdecode, (hmarks _ rfl).showsFacts⟩

theorem Applies.showsUses (h : d.Applies digest n f a x) (hjob : f.job = .boundaries) :
    ∃ raw units, a = .text raw ∧
      Reply.decode .boundaries raw = .ok (.ok (.boundaries units)) ∧
      ShowsUses units d.session.store (d.moment digest (.answer n a)).after.session.store
        (d.moment digest (.answer n a)).notices x := by
  obtain ⟨raw, p, hraw, hdecode, hmarks⟩ := h.marks
  simp only [Flight.command, Flight.marking?, hjob] at hdecode hmarks
  have hcommand := Reply.command_of_decode hdecode
  cases p <;> cases hcommand
  exact ⟨raw, _, hraw, hdecode, (hmarks _ rfl).showsUses⟩

/-- **What is shown of units**, whatever was shown before. -/
structure UnitsShown (digest : Digest) : Prop where
  /-- An answer that is taken in shows the units that it brings. -/
  facts : ∀ d n f a x view, Applies digest d n f a x → f.job = .permissions view →
    ∃ raw units, a = .text raw ∧
      Reply.decode .permissions raw = .ok (.ok (.permissions units)) ∧
      ShowsFacts view units d.session.store (d.moment digest (.answer n a)).after.session.store
        (d.moment digest (.answer n a)).notices x
  uses : ∀ d n f a x, Applies digest d n f a x → f.job = .boundaries →
    ∃ raw units, a = .text raw ∧
      Reply.decode .boundaries raw = .ok (.ok (.boundaries units)) ∧
      ShowsUses units d.session.store (d.moment digest (.answer n a)).after.session.store
        (d.moment digest (.answer n a)).notices x
  /-- Any units can be taken in on the text that they were computed for. -/
  everyFacts : ∀ (s : Session) text edits (f : Flight) view units,
    f.revision = ((Document.ofText text).editAll edits).revision → f.job = .permissions view →
    ∃ s' notices x, s.land ((Document.ofText text).editAll edits) f (.permissions units) =
      (s', notices, .applied x) ∧ ShowsFacts view units s.store s'.store notices x
  everyUses : ∀ (s : Session) text edits (f : Flight) units,
    f.revision = ((Document.ofText text).editAll edits).revision → f.job = .boundaries →
    ∃ s' notices x, s.land ((Document.ofText text).editAll edits) f (.boundaries units) =
      (s', notices, .applied x) ∧ ShowsUses units s.store s'.store notices x
  /-- Both commands show the same uses in the same way. -/
  alike : ∀ view facts before after notices x before' after' notices' x',
    view.showsUses = true → ShowsFacts view facts before after notices x →
    ShowsUses (facts.map (Except.map BodyFacts.reduced)) before' after' notices' x' →
    after'.layer .uses = after.layer .uses
  /-- Whatever a layer shows, the units of its decorations are told once
  each and in order. -/
  told : ∀ (s : Store) l, (s.units l).Pairwise (· < ·) ∧
    ∀ i, i ∈ s.units l ↔ ∃ d ∈ s.layer l, d.unit = some i

theorem shows_units (digest : Digest) : UnitsShown digest where
  facts _ _ _ _ _ _ h hjob := h.showsFacts hjob
  uses _ _ _ _ _ h hjob := h.showsUses hjob
  everyFacts s text edits f view units hrevision hjob := by
    have hmarking : f.marking? (.permissions units) = some (.ofFacts view units) := by
      simp only [Flight.marking?, hjob]
    obtain ⟨s', notices, x, hland, hmarks⟩ :=
      Session.land_marks (map?_of_revision text edits hrevision) hmarking s
    rw [Flight.command, hjob] at hmarks
    exact ⟨s', notices, x, hland, hmarks.showsFacts⟩
  everyUses s text edits f units hrevision hjob := by
    have hmarking : f.marking? (.boundaries units) = some (.ofUses units) := by
      simp only [Flight.marking?, hjob]
    obtain ⟨s', notices, x, hland, hmarks⟩ :=
      Session.land_marks (map?_of_revision text edits hrevision) hmarking s
    rw [Flight.command, hjob] at hmarks
    exact ⟨s', notices, x, hland, hmarks.showsUses⟩
  alike _ _ _ _ _ _ _ _ _ _ hview h h' := h'.layer_eq h hview
  told s l := ⟨s.pairwise_units l, fun _ => Store.mem_units⟩

/-- Of two units the first is refused, and the other brings one loan. -/
theorem shows_units_of_refused :
    let d := (initial .initial "f(x);").afterAll (fun _ => 0)
      [.start ⟨.permissions .initial, []⟩]
    let f : Flight := ⟨.permissions .initial, 0, "f(x);", ⟨⟨0⟩, 0⟩, []⟩
    let a := Answer.text ("\x7b\"Ok\":[\x7b\"Err\":[\"AnalysisError\",\"\"]\x7d," ++
      "\x7b\"Ok\":[[0,5],[],[],[[0,[2,3],2,4]]]\x7d]\x7d")
    let m := d.moment (fun _ => 0) (.answer 0 a)
    d.Applies (fun _ => 0) 0 f a ⟨⟨0⟩, 1, 1⟩ ∧
      m.after.session.store.layer .loans = [⟨⟨2, 4⟩, some 1, .loan 0 ⟨2, 3⟩ []⟩] ∧
      ∃ units, ShowsFacts .initial units d.session.store m.after.session.store m.notices
        ⟨⟨0⟩, 1, 1⟩ := by
  intro d f a m
  have hflight : d.flight? 0 = some f := by decide +kernel
  have hverdict : (d.session.finish (fun _ => 0) d.document f a).2.2 = .applied ⟨⟨0⟩, 1, 1⟩ := by
    decide +kernel
  have happlies : d.Applies (fun _ => 0) 0 f a ⟨⟨0⟩, 1, 1⟩ := by
    refine ⟨⟨"f(x);", [], rfl⟩, hflight, ?_⟩
    rw [moment_of_flight? _ hflight, hverdict]
  have hshown := (shows_units (fun _ => 0)).facts d 0 f a ⟨⟨0⟩, 1, 1⟩ .initial happlies rfl
  obtain ⟨raw, units, -, -, hshows⟩ := hshown
  have hm : m = d.moment (fun _ => 0) (.answer 0 a) := rfl
  rw [← hm] at hshows
  exact ⟨happlies, by decide +kernel, units, hshows⟩

end Desk

end Marginalia
