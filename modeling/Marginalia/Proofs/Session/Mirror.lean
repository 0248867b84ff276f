import Marginalia.Proofs.Overlay.Store
import Marginalia.Proofs.Session.Run
import Marginalia.Replay.Run

/-!
# Session — the screen mirrors the store

A screen that starts blank and takes every effect it is told, in order,
shows what the store holds, at every point of every run
(`Desk.run_mirrors`). It hears of the generations of each layer one by
one, and of revisions that never go back.

The effects of one moment lead from the store before to the store after
(`Conveys.leads`). For a change this is so since every layer is emptied
and told of; for a payload that is taken in it takes the fingerprint of
the flight: the document is still at the revision the payload was
computed for, where every span lies where it is, and so no decoration is
given up.
-/

namespace Marginalia

/-- The transaction that a notice dispatches. -/
def Notice.transaction? : Notice → Option Transaction
  | .dispatch _ t => some t
  | _ => none

/-- The transactions that are dispatched, in order. -/
def transactions (notices : List Notice) : List Transaction :=
  notices.filterMap Notice.transaction?

/-- Their effects, in order. -/
def effects (notices : List Notice) : List Effect :=
  (transactions notices).flatMap Transaction.effects

/-- All that is made known in a run. -/
def told (run : List Moment) : List Notice := run.flatMap Moment.notices

variable {ns ms : List Notice}

@[simp] theorem transactions_append :
    transactions (ns ++ ms) = transactions ns ++ transactions ms :=
  List.filterMap_append

@[simp] theorem effects_append : effects (ns ++ ms) = effects ns ++ effects ms := by
  simp [effects]

@[simp] theorem told_cons (m : Moment) (run : List Moment) :
    told (m :: run) = m.notices ++ told run :=
  List.flatMap_cons

@[simp] theorem told_concat (past : List Moment) (m : Moment) :
    told (past ++ [m]) = told past ++ m.notices := by
  simp [told]

/-- **What is read off a landing** is read off its parts. -/
theorem filterMap_landing {β : Type} (g : Notice → Option β) (l : Landing) (phase : Phase)
    (revision : Revision) (spans : List Span) :
    (l.notices phase revision spans).filterMap g =
      (if l.effects = [] then [] else (g (.dispatch phase ⟨revision, l.effects⟩)).toList) ++
        l.stepIndex.toList.filterMap (fun position => g (.stepIndex phase position)) ++
        spans.filterMap (fun span => g (.hide phase span)) ++
        l.reports.filterMap (fun r => g (.report phase r)) := by
  have hdispatch : (if l.effects.isEmpty then [] else
      [.dispatch phase ⟨revision, l.effects⟩]).filterMap g =
      if l.effects = [] then [] else (g (.dispatch phase ⟨revision, l.effects⟩)).toList := by
    cases l.effects with
    | nil => rfl
    | cons e es => cases h : g (.dispatch phase ⟨revision, e :: es⟩) <;> simp [h]
  simp only [Landing.notices, List.filterMap_append, List.filterMap_map, hdispatch]
  rfl

/-- Of what a landing makes known, the one transaction has its effects, -/
theorem transactions_landing (l : Landing) (phase : Phase) (revision : Revision)
    (spans : List Span) :
    transactions (l.notices phase revision spans) =
      if l.effects = [] then [] else [⟨revision, l.effects⟩] := by
  simp [transactions, filterMap_landing, Notice.transaction?]

theorem effects_landing (l : Landing) (phase : Phase) (revision : Revision)
    (spans : List Span) : effects (l.notices phase revision spans) = l.effects := by
  rw [effects, transactions_landing]
  cases l.effects <;> simp

/-- and is of its revision. -/
theorem revision_of_mem_landing {l : Landing} {phase : Phase} {revision : Revision}
    {spans : List Span} {t : Transaction}
    (h : t ∈ transactions (l.notices phase revision spans)) : t.revision = revision := by
  rw [transactions_landing] at h
  split at h
  · cases h
  · rw [List.mem_singleton.mp h]

namespace Replay

@[simp] theorem reports_append (ns ms : List Notice) :
    reports (ns ++ ms) = reports ns ++ reports ms :=
  List.filterMap_append

/-- The reports are its own. -/
theorem reports_landing (l : Landing) (phase : Phase) (revision : Revision)
    (spans : List Span) : reports (l.notices phase revision spans) = l.reports := by
  simp [reports, filterMap_landing]

end Replay

namespace Session

variable {digest : Digest} {s s' : Session} {d : Document} {f : Flight} {a : Answer}
variable {notices : List Notice} {v : Verdict}

/-- **The effects of an answer lead to what the session holds then.** -/
theorem Finished.leads (h : Finished digest s d f a s' notices v) (hd : d.Kept) :
    Store.Leads s.store (effects notices) s'.store := by
  cases h with
  | @applied p s' l hfits _ hl =>
    obtain ⟨layers, -, hfilled⟩ := (takesIn_of_apply hl).filled
    -- nothing was edited since the start, so every span lies where it is
    have hstill : ∀ span, d.map? span f.revision = some span := by
      rw [hfits.revision]
      exact Document.map?_now hd
    have hleads := Store.leads_replaceEach hstill s.store layers
    rw [hfilled] at hleads
    rw [effects_landing]
    exact hleads
  | _ => exact .refl

/-- They are told under the revision that is there. -/
theorem Finished.revision_of_mem (h : Finished digest s d f a s' notices v) {t : Transaction}
    (ht : t ∈ transactions notices) : t.revision = d.revision := by
  cases h with
  | applied hfits _ _ =>
    rw [revision_of_mem_landing ht]
    exact hfits.revision
  | _ => cases ht

end Session

/-! ## One moment -/

/-- **A moment conveys what it changes.** -/
structure Conveys (m : Moment) : Prop where
  kept : m.after.document.Kept
  later : m.before.document.revision.number ≤ m.after.document.revision.number
  leads : Store.Leads m.before.session.store (effects m.notices) m.after.session.store
  revision : ∀ t ∈ transactions m.notices,
    t.revision = m.before.document.revision ∧ t.revision = m.after.document.revision

/-- A moment that makes nothing of the store known leaves it alone. -/
theorem Conveys.of_silent {m : Moment} (hd : m.before.document.Kept)
    (hdocument : m.after.document = m.before.document)
    (hstore : m.after.session.store = m.before.session.store)
    (hnotices : transactions m.notices = []) : Conveys m where
  kept := hdocument ▸ hd
  later := Nat.le_of_eq (hdocument ▸ rfl)
  leads := by
    rw [hstore, effects, hnotices]
    exact .refl
  revision t ht := absurd (hnotices ▸ ht) List.not_mem_nil

/-- **Every moment does.** -/
theorem Happens.conveys {digest : Digest} {m : Moment} (h : Happens digest m)
    (hd : m.before.document.Kept) : Conveys m := by
  cases h with
  | @edited d e document he =>
    exact ⟨hd.apply he, Nat.le_of_lt (Document.revision_lt_of_apply he), .refl,
      fun t ht => absurd ht List.not_mem_nil⟩
  | @told d =>
    -- the other notice is of a step, and has no effect on a layer
    have heffects : effects (d.session.documentChanged d.document).2 =
        d.session.store.clearAll.2 := List.append_nil _
    refine ⟨hd, Nat.le_refl _, ?_, ?_⟩
    · rw [heffects]
      exact Store.leads_clearEach d.session.store Layer.all
    · intro t ht
      rw [List.mem_singleton.mp ht]
      exact ⟨rfl, rfl⟩
  | started hs =>
    obtain ⟨-, rfl, -⟩ := Session.start_eq_some hs
    exact Conveys.of_silent hd rfl rfl rfl
  | answered _ hf =>
    refine ⟨hd, Nat.le_refl _, hf.leads hd, ?_⟩
    intro t ht
    exact ⟨hf.revision_of_mem ht, hf.revision_of_mem ht⟩
  | _ => exact Conveys.of_silent hd rfl rfl rfl

/-! ## Runs -/

namespace Desk

variable {digest : Digest} {m : Moment} {past : List Moment} {d : Desk}

/-- **What a run made known mirrors what came of it.** -/
structure Mirrored (past : List Moment) (d : Desk) : Prop where
  kept : d.document.Kept
  leads : Store.Leads .initial (effects (told past)) d.session.store
  dispatched : ∀ m ∈ past, ∀ t ∈ transactions m.notices,
    t.revision = m.before.document.revision ∧ t.revision = m.after.document.revision
  reached : ∀ t ∈ transactions (told past), t.revision.number ≤ d.document.revision.number
  ascending : (transactions (told past)).Pairwise fun t u =>
    t.revision.number ≤ u.revision.number

namespace Mirrored

theorem initial (config : Config) (text : String) :
    Mirrored [] (Desk.initial config text) where
  kept := Document.kept_ofText text
  leads := .refl
  dispatched _ hm := absurd hm List.not_mem_nil
  reached _ ht := absurd ht List.not_mem_nil
  ascending := List.Pairwise.nil

/-- Every moment that conveys what it changes keeps the mirror. -/
theorem step (hm : Conveys m) (h : Mirrored past m.before) :
    Mirrored (past ++ [m]) m.after where
  kept := hm.kept
  leads := by
    rw [told_concat, effects_append]
    exact h.leads.trans hm.leads
  dispatched x hx t ht := by
    rcases List.mem_append.mp hx with hx | hx
    · exact h.dispatched x hx t ht
    · rw [List.mem_singleton.mp hx] at ht ⊢
      exact hm.revision t ht
  reached t ht := by
    rw [told_concat, transactions_append] at ht
    rcases List.mem_append.mp ht with ht | ht
    · exact Nat.le_trans (h.reached t ht) hm.later
    · exact Nat.le_of_eq (congrArg Revision.number (hm.revision t ht).2)
  ascending := by
    rw [told_concat, transactions_append, List.pairwise_append]
    refine ⟨h.ascending, ?_, ?_⟩
    · refine List.pairwise_of_forall_mem_list ?_
      intro t ht u hu
      have hsame : t.revision = u.revision :=
        (hm.revision t ht).1.trans (hm.revision u hu).1.symm
      exact Nat.le_of_eq (congrArg Revision.number hsame)
    · intro t ht u hu
      rw [(hm.revision u hu).1]
      exact h.reached t ht

theorem afterAll (digest : Digest) (config : Config) (text : String) (actions : List Action) :
    Mirrored ((Desk.initial config text).run digest actions)
      ((Desk.initial config text).afterAll digest actions) :=
  run_induction (Mirrored.initial config text)
    (fun _ _ hm h => h.step (hm.conveys h.kept)) actions

end Mirrored

/-- **A screen that mirrors the store.** -/
structure Mirrors (run : List Moment) (d : Desk) : Prop where
  /-- A screen that took every effect shows what the store holds. -/
  screen : Screen.updateAll .blank (effects (told run)) = d.session.store.layer
  /-- Of each layer the generations are told from the first to the one
  of the store, each once and in order. -/
  generations : ∀ l, ((effects (told run)).filter fun e => e.layer = l).map Effect.generation =
    List.range' 1 (d.session.store.generation l)
  /-- A transaction is of the revision that is there when it is
  dispatched. -/
  dispatched : ∀ m ∈ run, ∀ t ∈ transactions m.notices,
    t.revision = m.before.document.revision ∧ t.revision = m.after.document.revision
  /-- Revisions never go back. -/
  ascending : (transactions (told run)).Pairwise fun t u =>
    t.revision.number ≤ u.revision.number
  /-- No decoration is ever given up. -/
  whole : ∀ e ∈ effects (told run), ∀ edited, e.change ≠ .dropped edited

/-- **At every point of every run the screen mirrors the store.** -/
theorem run_mirrors (digest : Digest) (config : Config) (text : String)
    (actions : List Action) :
    Mirrors ((initial config text).run digest actions)
      ((initial config text).afterAll digest actions) := by
  have h := Mirrored.afterAll digest config text actions
  have hblank : Store.initial.layer = Screen.blank := by
    funext l
    cases l <;> rfl
  have hzero : ∀ l, Store.initial.generation l = 0 := by
    intro l
    cases l <;> rfl
  refine ⟨?_, ?_, h.dispatched, h.ascending, fun e he => h.leads.not_dropped he⟩
  · rw [← hblank]
    exact h.leads.updateAll
  · intro l
    have hgenerations := h.leads.generations l
    rwa [hzero, Nat.zero_add, Nat.sub_zero] at hgenerations

end Desk

end Marginalia
