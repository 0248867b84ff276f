import Marginalia.Proofs.Overlay.Store

/-!
# Overlay — any sequence of operations on the store

A batch of decorations is moved as a whole: `Batch` says what becomes of
it under any mapping, and the store does that and nothing else
(`Store.batch_replaceAll`), whichever entry is the first without a place.

So what one operation does (`Store.Does`) is the same at every point of
every sequence (`Store.run_allOrNothing`). A layer counts the operations
on it, the effects tell of all of them in order, and what it shows is
what the last one leaves there.
-/

namespace Marginalia

/-! ## Batches -/

/-- **What becomes of a batch.** -/
inductive Batch (locate : Span → Option Span) : List Decoration → Change → Prop
  /-- Every entry has a place: all are moved, and nothing else of them is
  changed. -/
  | moved {entries ds : List Decoration} :
      List.Forall₂ (fun entry d => ∃ span, locate entry.span = some span ∧
        d = { entry with span }) entries ds →
      Batch locate entries (.replaced ds)
  /-- An entry has none: the whole batch is given up for the first. -/
  | dropped {before after : List Decoration} {entry : Decoration} :
      (∀ d ∈ before, ∃ span, locate d.span = some span) → locate entry.span = none →
      Batch locate (before ++ entry :: after) (.dropped entry.span)

variable {locate : Span → Option Span} {entries ds : List Decoration} {edited : Span}

theorem batch_of_moveAll_ok (h : moveAll locate entries = .ok ds) :
    Batch locate entries (.replaced ds) :=
  .moved (forall₂_of_moveAll (fun _ _ span hspan => ⟨span, hspan, rfl⟩) h)

/-- The entry that gives a batch up has places for all those before it. -/
theorem batch_of_moveAll_error (h : moveAll locate entries = .error edited) :
    Batch locate entries (.dropped edited) := by
  induction entries with
  | nil => cases h
  | cons entry entries ih =>
    rw [moveAll] at h
    cases hspan : locate entry.span with
    | none =>
      simp only [hspan, Except.error.injEq] at h
      subst h
      exact .dropped (List.forall_mem_nil _) hspan
    | some span =>
      cases hmoved : moveAll locate entries with
      | ok moved => simp [hspan, hmoved] at h
      | error first =>
        simp only [hspan, hmoved, Except.error.injEq] at h
        subst h
        -- what is moved is one more of those before the first without a place
        cases ih hmoved with
        | dropped hbefore hfirst =>
          exact .dropped (List.forall_mem_cons.mpr ⟨⟨span, hspan⟩, hbefore⟩) hfirst

namespace Store

variable {s t : Store} {l : Layer} {mapping : Mapping} {computedAt : Revision}

/-- **The store does with a batch what becomes of it.** -/
theorem batch_replaceAll (s : Store) (l : Layer) (entries : List Decoration)
    (computedAt : Revision) (mapping : Mapping) :
    ∃ c, Batch (mapping · computedAt) entries c ∧
      s.replaceAll l entries computedAt mapping = s.change l c := by
  unfold replaceAll
  cases h : moveAll (mapping · computedAt) entries with
  | ok ds => exact ⟨.replaced ds, batch_of_moveAll_ok h, rfl⟩
  | error edited => exact ⟨.dropped edited, batch_of_moveAll_error h, rfl⟩

/-! ## Operations -/

/-- **What is asked of the store.** -/
inductive Operation where
  | replaceAll (l : Layer) (entries : List Decoration) (computedAt : Revision)
    (mapping : Mapping)
  | clear (l : Layer)
  | clearAll

/-- The layers of an operation, in the order in which they are changed. -/
def Operation.layers : Operation → List Layer
  | .replaceAll l _ _ _ => [l]
  | .clear l => [l]
  | .clearAll => Layer.all

/-- The store after an operation, and the effects of it. -/
def act (s : Store) : Operation → Store × List Effect
  | .replaceAll l entries computedAt mapping =>
    let (t, e) := s.replaceAll l entries computedAt mapping
    (t, [e])
  | .clear l =>
    let (t, e) := s.clear l
    (t, [e])
  | .clearAll => s.clearAll

/-- The store after a sequence of operations, and the effects of all. -/
def run (s : Store) : List Operation → Store × List Effect
  | [] => (s, [])
  | op :: ops =>
    let (t, es) := s.act op
    let (u, fs) := t.run ops
    (u, es ++ fs)

/-- **What one operation does** to a store. -/
inductive Does (s : Store) : Operation → List Effect → Store → Prop
  /-- A layer is filled with a batch, or emptied as the batch is given up. -/
  | replaceAll {e : Effect} {t : Store} {entries : List Decoration} {computedAt : Revision}
      {mapping : Mapping} :
      Touches s e t → Batch (mapping · computedAt) entries e.change →
      Does s (.replaceAll e.layer entries computedAt mapping) [e] t
  /-- A layer is emptied. -/
  | clear {e : Effect} {t : Store} :
      Touches s e t → e.change = .cleared → Does s (.clear e.layer) [e] t
  /-- Every layer is emptied, each in its turn. -/
  | clearAll {t : Store} :
      (∀ l, t.layer l = [] ∧ t.generation l = s.generation l + 1) →
      Does s .clearAll (Layer.all.map fun l => ⟨l, s.generation l + 1, .cleared⟩) t

theorem does_act (s : Store) (op : Operation) : Does s op (s.act op).2 (s.act op).1 := by
  cases op with
  | replaceAll l entries computedAt mapping =>
    obtain ⟨c, hbatch, hchange⟩ := s.batch_replaceAll l entries computedAt mapping
    simp only [act, hchange]
    exact .replaceAll (touches_change s l c) hbatch
  | clear l => exact .clear (touches_change s l .cleared) rfl
  | clearAll => exact .clearAll fun l => ⟨layer_clearAll s l, by cases l <;> rfl⟩

/-! ## Sequences -/

variable {op : Operation} {ops earlier later : List Operation}

theorem run_append (s : Store) (earlier later : List Operation) :
    s.run (earlier ++ later) =
      (((s.run earlier).1.run later).1,
        (s.run earlier).2 ++ ((s.run earlier).1.run later).2) := by
  induction earlier generalizing s with
  | nil => rfl
  | cons op earlier ih =>
    simp only [List.cons_append, run, ih, List.append_assoc]

theorem run_singleton (s : Store) (op : Operation) : s.run [op] = s.act op := by
  simp only [run, List.append_nil]

theorem track_act (s : Store) (op : Operation) : Track s (s.act op).2 (s.act op).1 := by
  cases op with
  | replaceAll l entries computedAt mapping =>
    obtain ⟨c, -, hchange⟩ := s.batch_replaceAll l entries computedAt mapping
    simp only [act, hchange]
    exact .touch (touches_change s l c) .refl
  | clear l => exact .touch (touches_change s l .cleared) .refl
  | clearAll => exact (leads_clearEach s Layer.all).track

/-- The effects of a sequence are those of changes that follow one
another. -/
theorem track_run (s : Store) (ops : List Operation) : Track s (s.run ops).2 (s.run ops).1 := by
  induction ops generalizing s with
  | nil => exact .refl
  | cons op ops ih => exact (s.track_act op).trans (ih _)

theorem map_layer_act (s : Store) (op : Operation) :
    (s.act op).2.map Effect.layer = op.layers := by
  cases op with
  | replaceAll l entries computedAt mapping =>
    obtain ⟨c, -, hchange⟩ := s.batch_replaceAll l entries computedAt mapping
    simp only [act, hchange]
    rfl
  | clear l => rfl
  | clearAll => rfl

/-- **The effects tell of the layers that are changed**, in order. -/
theorem map_layer_run (s : Store) (ops : List Operation) :
    (s.run ops).2.map Effect.layer = ops.flatMap Operation.layers := by
  induction ops generalizing s with
  | nil => rfl
  | cons op ops ih => rw [run, List.map_append, map_layer_act, ih, List.flatMap_cons]

/-- What an operation leaves in its layers does not depend on what was
there. -/
theorem layer_act_congr (h : l ∈ op.layers) (s t : Store) :
    (s.act op).1.layer l = (t.act op).1.layer l := by
  cases op with
  | replaceAll l₀ entries computedAt mapping =>
    obtain rfl := List.mem_singleton.mp h
    obtain ⟨c, hc⟩ := exists_replaceAll_eq l entries computedAt mapping
    simp only [act, hc, layer_change]
    rfl
  | clear l₀ =>
    obtain rfl := List.mem_singleton.mp h
    exact (layer_change s l .cleared).trans (layer_change t l .cleared).symm
  | clearAll => exact (layer_clearAll s l).trans (layer_clearAll t l).symm

/-- **A layer that no operation is on is left as it is.** -/
theorem Track.untouched {es : List Effect} (h : Track s es t) (hl : l ∉ es.map Effect.layer) :
    t.layer l = s.layer l ∧ t.generation l = s.generation l := by
  induction h with
  | refl => exact ⟨rfl, rfl⟩
  | touch he _ ih =>
    rw [List.map_cons, List.mem_cons, not_or] at hl
    obtain ⟨hlayer, hgeneration⟩ := ih hl.2
    obtain ⟨hlayer', hgeneration'⟩ := he.others l hl.1
    exact ⟨hlayer.trans hlayer', hgeneration.trans hgeneration'⟩

/-- **What a sequence of operations comes to.** -/
structure Accounts (s : Store) (ops : List Operation) : Prop where
  /-- Every operation does what it does, after those before it. -/
  each : ∀ earlier op later, ops = earlier ++ op :: later →
    ∃ es, (s.run (earlier ++ [op])).2 = (s.run earlier).2 ++ es ∧
      Does (s.run earlier).1 op es (s.run (earlier ++ [op])).1
  /-- The effects tell of all that is changed, -/
  told : (s.run ops).2.map Effect.layer = ops.flatMap Operation.layers
  screen : Screen.updateAll s.layer (s.run ops).2 = (s.run ops).1.layer
  /-- a layer counts the operations on it, and every count is told once, -/
  generation : ∀ l, (s.run ops).1.generation l =
    s.generation l + (ops.flatMap Operation.layers).count l
  generations : ∀ l, ((s.run ops).2.filter fun e => e.layer = l).map Effect.generation =
    List.range' (s.generation l + 1) ((ops.flatMap Operation.layers).count l)
  /-- and it shows what the last of these leaves there, whatever it was
  before. -/
  last : ∀ earlier op later l, ops = earlier ++ op :: later → l ∈ op.layers →
    l ∉ later.flatMap Operation.layers → ∀ t : Store, (s.run ops).1.layer l = (t.act op).1.layer l
  untouched : ∀ l, l ∉ ops.flatMap Operation.layers → (s.run ops).1.layer l = s.layer l

/-- **Operations are isolated, counted and done as a whole**, in every
sequence and under any mappings. -/
theorem run_allOrNothing (s : Store) (ops : List Operation) : Accounts s ops where
  each := by
    rintro earlier op later -
    refine ⟨((s.run earlier).1.act op).2, ?_, ?_⟩
    · rw [run_append, run_singleton]
    · rw [run_append, run_singleton]
      exact does_act _ op
  told := s.map_layer_run ops
  screen := (s.track_run ops).updateAll
  generation l := by rw [(s.track_run ops).generation l, map_layer_run]
  generations l := by rw [(s.track_run ops).generations l, map_layer_run]
  last := by
    rintro earlier op later l rfl hop hlater t
    -- what comes after the operation does not touch the layer
    have hrest := ((s.run earlier).1.act op).1.track_run later
    rw [← map_layer_run ((s.run earlier).1.act op).1 later] at hlater
    rw [run_append, run]
    exact (hrest.untouched hlater).1.trans (layer_act_congr hop _ t)
  untouched l hl := by
    rw [← map_layer_run s ops] at hl
    exact ((s.track_run ops).untouched hl).1

/-- The second batch is given up for its last entry, and nothing of the
first is left. -/
example :
    let use (start stop : Nat) : Decoration := ⟨⟨start, stop⟩, none, .marker start⟩
    let moved : Mapping := fun span _ =>
      if span.start < 5 then some ⟨span.start + 1, span.stop + 1⟩ else none
    let told := (initial.run [.replaceAll .markers [use 0 2, use 3 4] ⟨0⟩ moved,
      .clear .uses, .replaceAll .markers [use 1 2, use 6 7] ⟨0⟩ moved]).2
    told.map (fun e => (e.layer, e.generation, e.change)) =
      [(.markers, 1, .replaced [⟨⟨1, 3⟩, none, .marker 0⟩, ⟨⟨4, 5⟩, none, .marker 3⟩]),
        (.uses, 1, .cleared), (.markers, 2, .dropped ⟨6, 7⟩)] := by
  decide +kernel

end Store

end Marginalia
