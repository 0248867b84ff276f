import Marginalia.Proofs.State.Window
import Marginalia.Trace.Step

/-!
# Trace — paths walked by hand

Where a path leads in a step can be told without following it as a program
does. The walk starts at the first local of the name in the frame, or at
the heap cell (`Step.Starts`), and goes from a value to one of its fields
or to an element that is there (`Value.Leads`, `Value.Walk`). It fails at
the first part that leads nowhere, for the reason that the part and the
place give (`Target.Fails`), or before the first part (`Step.Missing`).

A path of fields and elements resolves to the end of its walk
(`Step.resolve_eq_ok_iff`), and dangles where and why its walk fails
(`Step.resolve_eq_error_iff`). Any path that begins with one that dangles
dangles for the same reason.
-/

namespace Marginalia

/-! ## Walks -/

/-- **Element `n` of the sequence is there.** -/
inductive Excerpt.Has {α : Type} (e : Excerpt α) : Nat → α → Prop
  /-- It is one of those in front, -/
  | front {n : Nat} {a : α} : n < e.length → e.front[n]? = some a → Has e n a
  /-- or it is the last of all. -/
  | last {n : Nat} {a : α} :
      e.front.length ≤ n → n + 1 = e.length → e.last = some a → Has e n a

/-- **A part of a path leads on** from a value. -/
inductive Value.Leads : Value → Part → Target → Prop
  /-- To a field of a struct. -/
  | struct {name field : String} {fields : List (String × Value)} {n : Nat} {c : Value} :
      fields[n]? = some (field, c) → Leads (.struct name fields) (.field n) (.value c)
  /-- To a field of a variant. -/
  | enum {name variant field : String} {fields : List (String × Value)} {n : Nat} {c : Value} :
      fields[n]? = some (field, c) → Leads (.enum name variant fields) (.field n) (.value c)
  /-- To an element of an array. -/
  | item {items : Excerpt Value} {n : Nat} {c : Value} :
      items.Has n c → Leads (.array items) (.index n) (.value c)
  /-- To a code unit of a string. -/
  | unit {units : Excerpt UInt32} {n : Nat} {u : UInt32} :
      units.Has n u → Leads (.string units) (.index n) (.unit u)

/-- **The parts lead on one after the other.** From a code unit nothing
leads on. -/
inductive Value.Walk : Value → List Part → Target → Prop
  | done (v : Value) : Walk v [] (.value v)
  | on {v c : Value} {part : Part} {parts : List Part} {t : Target} :
      v.Leads part (.value c) → Walk c parts t → Walk v (part :: parts) t
  | unit {v : Value} {part : Part} {u : UInt32} :
      v.Leads part (.unit u) → Walk v [part] (.unit u)

/-- **Where a path starts.** -/
inductive Step.Starts (s : Step) : Root → Value → Prop
  /-- At the first local of the name. -/
  | stack {i : Nat} {f : Frame} {before after : List Binding} {b : Binding} :
      s.frames[i]? = some f → f.locals = before ++ b :: after →
      (∀ l ∈ before, l.name ≠ b.name) → Starts s (.stack i b.name) b.value
  /-- At a cell of the heap. -/
  | heap {i : Nat} {v : Value} : s.heap[i]? = some v → Starts s (.heap i) v

/-- The path leads there. -/
def Step.Reaches (s : Step) (p : Path) (t : Target) : Prop :=
  ∃ v, s.Starts p.root v ∧ v.Walk p.parts t

/-! ## Failures -/

/-- The value is a string or an array whose element `n` is not there. -/
inductive Value.Lacks : Value → Nat → Prop
  | unit {units : Excerpt UInt32} {n : Nat} : (∀ u, ¬units.Has n u) → Lacks (.string units) n
  | item {items : Excerpt Value} {n : Nat} : (∀ c, ¬items.Has n c) → Lacks (.array items) n

/-- **A field or an element leads nowhere**, and why. -/
inductive Target.Fails : Target → Part → Reason → Prop
  /-- The value is neither a struct nor an enum. -/
  | noFields {v : Value} {n : Nat} :
      v.fields? = none → Fails (.value v) (.field n) .notIndexable
  /-- It has fewer fields. -/
  | field {v : Value} {fields : List (String × Value)} {n : Nat} :
      v.fields? = some fields → fields.length ≤ n → Fails (.value v) (.field n) .fieldOutOfRange
  /-- The value is neither a string nor an array. -/
  | noElements {v : Value} {n : Nat} :
      v.length? = none → Fails (.value v) (.index n) .notIndexable
  /-- It was not that long. -/
  | index {v : Value} {length n : Nat} :
      v.length? = some length → length ≤ n → Fails (.value v) (.index n) .indexOutOfRange
  /-- It was, but the element is not there. -/
  | elided {v : Value} {length n : Nat} :
      v.length? = some length → n < length → v.Lacks n → Fails (.value v) (.index n) .elided
  /-- There is nothing in a code unit. -/
  | unit {u : UInt32} {part : Part} : Fails (.unit u) part .notIndexable

/-- **A path cannot start**, and why. -/
inductive Step.Missing (s : Step) : Root → Reason → Prop
  | frame {i : Nat} {name : String} :
      s.frames.length ≤ i → Missing s (.stack i name) .unknownFrame
  | local {i : Nat} {name : String} {f : Frame} :
      s.frames[i]? = some f → (∀ l ∈ f.locals, l.name ≠ name) →
      Missing s (.stack i name) .unknownLocal
  | heap {i : Nat} : s.heap.length ≤ i → Missing s (.heap i) .unknownHeap

/-- **The path leads nowhere**, and why. -/
inductive Step.Misses (s : Step) (p : Path) : Reason → Prop
  /-- It cannot start, -/
  | root {reason : Reason} : s.Missing p.root reason → Misses s p reason
  /-- or it leads as far as to a part that fails. -/
  | part {front back : List Part} {part : Part} {t : Target} {reason : Reason} :
      p.parts = front ++ part :: back → s.Reaches ⟨p.root, front⟩ t → t.Fails part reason →
      Misses s p reason

/-- A path of fields and elements. -/
def Path.Plain (p : Path) : Prop := ∀ start stop, .slice start stop ∉ p.parts

/-! ## From one value to the next -/

theorem Excerpt.has_iff {α : Type} {e : Excerpt α} {n : Nat} {a : α} :
    e.Has n a ↔ n < e.length ∧ e.get? n = some a := by
  rw [get?_eq_some]
  constructor
  · intro h
    cases h with
    | front hn ha => exact ⟨hn, .inl ha⟩
    | last hfront hn ha => exact ⟨by omega, .inr ⟨hfront, hn, ha⟩⟩
  · rintro ⟨hn, ha | ⟨hfront, hlast, ha⟩⟩
    · exact .front hn ha
    · exact .last hfront hlast ha

namespace Value

variable {v : Value} {parts : List Part} {t : Target} {n : Nat}

theorem leads_field_iff : v.Leads (.field n) t ↔
    ∃ fields name c, v.fields? = some fields ∧ fields[n]? = some (name, c) ∧ t = .value c := by
  constructor
  · intro h
    cases h with
    | struct hc => exact ⟨_, _, _, rfl, hc, rfl⟩
    | enum hc => exact ⟨_, _, _, rfl, hc, rfl⟩
  · rintro ⟨fields, name, c, hfields, hc, rfl⟩
    cases v with
    | struct _ fs =>
      cases hfields
      exact .struct hc
    | enum _ _ fs =>
      cases hfields
      exact .enum hc
    | _ => cases hfields

theorem leads_index_iff : v.Leads (.index n) t ↔
    ∃ length, v.length? = some length ∧ n < length ∧ v.element n = .ok t := by
  rw [element_eq_ok]
  constructor
  · intro h
    cases h with
    | item hitem =>
      obtain ⟨hn, hget⟩ := Excerpt.has_iff.mp hitem
      exact ⟨_, rfl, hn, .inr ⟨_, _, rfl, hget, rfl⟩⟩
    | unit hunit =>
      obtain ⟨hn, hget⟩ := Excerpt.has_iff.mp hunit
      exact ⟨_, rfl, hn, .inl ⟨_, _, rfl, hget, rfl⟩⟩
  · rintro ⟨length, hlength, hn, ⟨e, u, rfl, hget, rfl⟩ | ⟨e, a, rfl, hget, rfl⟩⟩
    · cases hlength
      exact .unit (Excerpt.has_iff.mpr ⟨hn, hget⟩)
    · cases hlength
      exact .item (Excerpt.has_iff.mpr ⟨hn, hget⟩)

/-- Within a string or an array an element is elided or there. -/
theorem eq_elided_of_element {length : Nat} {reason : Reason} (hlength : v.length? = some length)
    (h : v.element n = .error reason) : reason = .elided := by
  cases v with
  | string e =>
    rw [element] at h
    split at h <;> cases h
    rfl
  | array e =>
    rw [element] at h
    split at h <;> cases h
    rfl
  | _ => cases hlength

/-- What is not there within the length is what is said to be elided. -/
theorem lacks_iff {length : Nat} (hlength : v.length? = some length) (hn : n < length) :
    v.Lacks n ↔ v.element n = .error .elided := by
  have hnot : ∀ {α : Type} (e : Excerpt α), e.length = length →
      ((∀ a, ¬e.Has n a) ↔ e.get? n = none) := by
    rintro α e rfl
    simp only [Excerpt.has_iff, not_and, Option.eq_none_iff_forall_ne_some]
    exact forall_congr' fun a => ⟨fun h => h hn, fun h _ => h⟩
  cases v with
  | string e =>
    have hiff := hnot e (Option.some.inj hlength)
    have hlacks : (Value.string e).Lacks n ↔ ∀ u, ¬e.Has n u :=
      ⟨fun h => by cases h with | unit h => exact h, .unit⟩
    rw [hlacks, hiff, element]
    cases e.get? n <;> simp
  | array e =>
    have hiff := hnot e (Option.some.inj hlength)
    have hlacks : (Value.array e).Lacks n ↔ ∀ u, ¬e.Has n u :=
      ⟨fun h => by cases h with | item h => exact h, .item⟩
    rw [hlacks, hiff, element]
    cases e.get? n <;> simp
  | _ => cases hlength

theorem project_index_of_value (v : Value) (n : Nat) : (Target.value v).project (.index n) =
    match v.length? with
    | none => .error .notIndexable
    | some length => if length ≤ n then .error .indexOutOfRange else v.element n := by
  rw [Target.project_index, Target.window?]
  cases v.length? <;> simp

/-- **One part of a path leads where it should.** -/
theorem project_eq_ok_iff {part : Part} (hpart : ∀ start stop, .slice start stop ≠ part) :
    (Target.value v).project part = .ok t ↔ v.Leads part t := by
  cases part with
  | field n =>
    rw [leads_field_iff, Target.project]
    cases v.fields? with
    | none => simp
    | some fields =>
      cases hc : fields[n]? with
      | none => simp [hc]
      | some field =>
        obtain ⟨name, c⟩ := field
        simp [hc, eq_comm]
  | index n =>
    rw [leads_index_iff, project_index_of_value]
    cases v.length? with
    | none => simp
    | some length =>
      rcases Nat.lt_or_ge n length with hn | hn
      · simp [hn, Nat.not_le.mpr hn]
      · simp [hn, Nat.not_lt.mpr hn]
  | slice start stop => exact absurd rfl (hpart start stop)

/-- **And fails where it should.** -/
theorem project_eq_error_iff {part : Part} {reason : Reason}
    (hpart : ∀ start stop, .slice start stop ≠ part) :
    (Target.value v).project part = .error reason ↔ (Target.value v).Fails part reason := by
  cases part with
  | field n =>
    rw [Target.project]
    constructor
    · intro h
      split at h
      · rename_i hfields
        cases h
        exact .noFields hfields
      · rename_i fields hfields
        split at h
        · cases h
        · rename_i hn
          cases h
          exact .field hfields (List.getElem?_eq_none_iff.mp hn)
    · intro h
      cases h with
      | noFields hfields => rw [hfields]
      | field hfields hn => simp only [hfields, List.getElem?_eq_none hn]
  | index n =>
    rw [project_index_of_value]
    constructor
    · intro h
      split at h
      · rename_i hlength
        cases h
        exact .noElements hlength
      · rename_i length hlength
        split at h
        · rename_i hn
          cases h
          exact .index hlength hn
        · rename_i hn
          obtain rfl := eq_elided_of_element hlength h
          have hn := Nat.lt_of_not_le hn
          exact .elided hlength hn ((lacks_iff hlength hn).mpr h)
    · intro h
      cases h with
      | noElements hlength => rw [hlength]
      | index hlength hn => simp only [hlength, if_pos hn]
      | elided hlength hn hlacks =>
        simp only [hlength, if_neg (Nat.not_le.mpr hn), (lacks_iff hlength hn).mp hlacks]
  | slice start stop => exact absurd rfl (hpart start stop)

end Value

/-! ## Along a path -/

/-- There is nowhere to start from. -/
def Reason.AtRoot : Reason → Prop
  | .unknownFrame | .unknownLocal | .unknownHeap => True
  | _ => False

namespace Target

variable {t w : Target} {part : Part} {parts : List Part} {reason : Reason}

theorem not_atRoot_of_project (h : t.project part = .error reason) : ¬reason.AtRoot := by
  have helement : ∀ {v : Value} {n : Nat}, v.element n = .error reason → ¬reason.AtRoot := by
    intro v n h
    unfold Value.element at h
    split at h
    · split at h <;> cases h
      exact id
    · split at h <;> cases h
      exact id
    · cases h
      exact id
  cases part with
  | field n =>
    cases t with
    | value v =>
      rw [project] at h
      split at h
      · cases h
        exact id
      · split at h <;> cases h
        exact id
    | _ =>
      cases h
      exact id
  | index n =>
    rw [project_index] at h
    split at h
    · cases h
      exact id
    · split at h
      · cases h
        exact id
      · exact helement h
  | slice lo hi =>
    rw [project_slice] at h
    split at h
    · cases h
      exact id
    · split at h <;> cases h
      exact id

theorem follow_unit_eq_ok {u : UInt32} :
    (Target.unit u).follow parts = .ok t ↔ parts = [] ∧ t = .unit u := by
  cases parts with
  | nil => simp [follow, eq_comm]
  | cons part parts => cases part <;> simp [follow, project]

/-- **A failure is that of the first part that fails.** -/
theorem follow_eq_error : t.follow parts = .error reason ↔ ∃ front part back w,
    parts = front ++ part :: back ∧ t.follow front = .ok w ∧ w.project part = .error reason := by
  induction parts generalizing t with
  | nil => simp [follow]
  | cons part parts ih =>
    rw [follow]
    constructor
    · intro h
      split at h
      · rename_i t' hpart
        obtain ⟨front, part', back, w, rfl, hfront, hfails⟩ := ih.mp h
        refine ⟨part :: front, part', back, w, rfl, ?_, hfails⟩
        rw [follow, hpart]
        exact hfront
      · rename_i hfails
        cases h
        exact ⟨[], part, parts, t, rfl, rfl, hfails⟩
    · rintro ⟨front, part', back, w, hparts, hfront, hfails⟩
      cases front with
      | nil =>
        cases hparts
        cases hfront
        rw [hfails]
      | cons first front =>
        cases hparts
        rw [follow] at hfront
        split at hfront
        · exact ih.mpr ⟨front, part', back, w, rfl, hfront, hfails⟩
        · cases hfront

end Target

/-- **The parts of a path lead where they should.** -/
theorem Value.follow_eq_ok_iff {v : Value} {parts : List Part} {t : Target}
    (hparts : ∀ start stop, .slice start stop ∉ parts) :
    (Target.value v).follow parts = .ok t ↔ v.Walk parts t := by
  induction parts generalizing v with
  | nil =>
    rw [Target.follow]
    constructor
    · intro h
      cases h
      exact .done v
    · intro h
      cases h
      rfl
  | cons part parts ih =>
    have hpart : ∀ start stop, .slice start stop ≠ part := by
      rintro start stop rfl
      exact hparts start stop List.mem_cons_self
    have ih := fun c : Value => ih (v := c) fun start stop h =>
      hparts start stop (List.mem_cons_of_mem _ h)
    rw [Target.follow]
    constructor
    · intro h
      split at h
      · rename_i w hproject
        have hleads := (project_eq_ok_iff hpart).mp hproject
        cases w with
        | value c => exact .on hleads ((ih c).mp h)
        | unit u =>
          obtain ⟨rfl, rfl⟩ := Target.follow_unit_eq_ok.mp h
          exact .unit hleads
        | slice w start stop => cases hleads
      · cases h
    · intro h
      cases h with
      | on hleads hwalk =>
        rw [(project_eq_ok_iff hpart).mpr hleads]
        exact (ih _).mpr hwalk
      | unit hleads =>
        rw [(project_eq_ok_iff hpart).mpr hleads]
        rfl

theorem Value.Walk.ne_slice {v w : Value} {parts : List Part} {t : Target}
    (h : v.Walk parts t) (start stop : Nat) : t ≠ .slice w start stop := by
  induction h with
  | done v => exact nofun
  | on _ _ ih => exact ih
  | unit _ => exact nofun

/-! ## Where a path starts -/

theorem Frame.local?_eq_some {f : Frame} {name : String} {v : Value} :
    f.local? name = some v ↔ ∃ before b after, f.locals = before ++ b :: after ∧
      (∀ l ∈ before, l.name ≠ name) ∧ b.name = name ∧ b.value = v := by
  simp only [local?, Option.map_eq_some_iff, List.find?_eq_some_iff_append, decide_eq_true_eq,
    Bool.not_eq_true', decide_eq_false_iff_not]
  constructor
  · rintro ⟨b, ⟨hname, before, after, hlocals, hbefore⟩, hvalue⟩
    exact ⟨before, b, after, hlocals, hbefore, hname, hvalue⟩
  · rintro ⟨before, b, after, hlocals, hbefore, hname, hvalue⟩
    exact ⟨b, ⟨hname, before, after, hlocals, hbefore⟩, hvalue⟩

theorem Frame.local?_eq_none {f : Frame} {name : String} :
    f.local? name = none ↔ ∀ l ∈ f.locals, l.name ≠ name := by
  simp [local?]

theorem Path.startsWith_iff {p q : Path} :
    q.startsWith p = true ↔ ∃ back, q = ⟨p.root, p.parts ++ back⟩ := by
  obtain ⟨root, parts⟩ := q
  simp only [startsWith, Bool.and_eq_true, decide_eq_true_eq, List.isPrefixOf_iff_prefix,
    List.IsPrefix, mk.injEq]
  constructor
  · rintro ⟨rfl, back, rfl⟩
    exact ⟨back, rfl, rfl⟩
  · rintro ⟨back, rfl, rfl⟩
    exact ⟨rfl, back, rfl⟩

namespace Step

variable {s : Step} {p q : Path} {t : Target} {v : Value} {root : Root} {reason : Reason}

theorem local?_snapshot (s : Step) (i : Nat) (name : String) :
    s.snapshot.local? i name = s.frames[i]?.bind fun f => f.local? name := by
  simp only [Snapshot.local?, snapshot, List.getElem?_map, Frame.local?]
  cases s.frames[i]? with
  | none => rfl
  | some f =>
    simp only [Option.map_some, Option.bind_some, List.find?_map, Option.map_map]
    rfl

theorem root_stack (s : Step) (i : Nat) (name : String) :
    s.snapshot.root (.stack i name) =
      match s.frames[i]? with
      | none => .error .unknownFrame
      | some f =>
        match f.local? name with
        | some v => .ok v
        | none => .error .unknownLocal := by
  have hcount : s.snapshot.frames.length = s.frames.length := by simp [snapshot]
  rw [Snapshot.root, hcount, local?_snapshot]
  cases hf : s.frames[i]? with
  | none => rw [if_pos (List.getElem?_eq_none_iff.mp hf)]
  | some f =>
    have hi := (List.getElem?_eq_some_iff.mp hf).1
    rw [if_neg (Nat.not_le.mpr hi)]
    rfl

theorem root_eq_ok_iff : s.snapshot.root root = .ok v ↔ s.Starts root v := by
  cases root with
  | stack i name =>
    rw [root_stack]
    constructor
    · intro h
      split at h
      · cases h
      · rename_i f hf
        split at h
        · rename_i v hv
          cases h
          obtain ⟨before, b, after, hlocals, hbefore, rfl, rfl⟩ := Frame.local?_eq_some.mp hv
          exact .stack hf hlocals hbefore
        · cases h
    · intro h
      cases h with
      | stack hf hlocals hbefore =>
        have hv := Frame.local?_eq_some.mpr ⟨_, _, _, hlocals, hbefore, rfl, rfl⟩
        simp only [hf, hv]
  | heap i =>
    show (match s.heap[i]? with | some v => _ | none => _) = _ ↔ _
    constructor
    · intro h
      split at h
      · rename_i hv
        cases h
        exact .heap hv
      · cases h
    · intro h
      cases h with
      | heap hv => rw [hv]

theorem root_eq_error_iff : s.snapshot.root root = .error reason ↔ s.Missing root reason := by
  cases root with
  | stack i name =>
    rw [root_stack]
    constructor
    · intro h
      split at h
      · rename_i hi
        cases h
        exact .frame (List.getElem?_eq_none_iff.mp hi)
      · rename_i f hf
        split at h
        · cases h
        · rename_i hnone
          cases h
          exact .local hf (Frame.local?_eq_none.mp hnone)
    · intro h
      cases h with
      | frame hi => rw [List.getElem?_eq_none hi]
      | «local» hf hnone => simp only [hf, Frame.local?_eq_none.mpr hnone]
  | heap i =>
    show (match s.heap[i]? with | some v => _ | none => _) = _ ↔ _
    constructor
    · intro h
      split at h
      · cases h
      · rename_i hi
        cases h
        exact .heap (List.getElem?_eq_none_iff.mp hi)
    · intro h
      cases h with
      | heap hi => rw [List.getElem?_eq_none hi]

/-! ## Where a path leads -/

/-- **A path of fields and elements resolves to the end of its walk.** -/
theorem resolve_eq_ok_iff (hp : p.Plain) :
    s.snapshot.resolve p = .ok t ↔ s.Reaches p t := by
  rw [Snapshot.resolve_eq_ok, Snapshot.reach, Reaches]
  simp only [← root_eq_ok_iff, ← Value.follow_eq_ok_iff hp]
  cases s.snapshot.root p.root <;> simp [Except.map, Except.bind]

/-- Where the walk ended, a field or an element leads nowhere. -/
theorem Reaches.project_eq_error_iff (h : s.Reaches p t) {part : Part}
    (hpart : ∀ start stop, .slice start stop ≠ part) :
    t.project part = .error reason ↔ t.Fails part reason := by
  obtain ⟨_, -, hwalk⟩ := h
  cases t with
  | value v => exact Value.project_eq_error_iff hpart
  | unit u =>
    constructor
    · intro h
      cases part <;> cases h <;> exact .unit
    · intro h
      cases h
      cases part <;> rfl
  | slice w start stop => exact absurd rfl (hwalk.ne_slice start stop)

/-- What goes wrong along any path, and why. -/
theorem reach_eq_error_iff : s.snapshot.reach p = .error reason ↔
    s.Missing p.root reason ∨ ∃ front part back w, p.parts = front ++ part :: back ∧
      s.snapshot.reach ⟨p.root, front⟩ = .ok w ∧ w.project part = .error reason := by
  rw [← root_eq_error_iff]
  simp only [Snapshot.reach]
  cases s.snapshot.root p.root with
  | error r => simp [Except.map, Except.bind]
  | ok v =>
    simp only [reduceCtorEq, false_or]
    exact Target.follow_eq_error

/-- **It dangles where and why its walk fails.** -/
theorem resolve_eq_error_iff (hp : p.Plain) {d : Dangling} :
    s.snapshot.resolve p = .error d ↔ d.path = p ∧ s.Misses p d.reason := by
  rw [Snapshot.resolve_eq_error]
  refine and_congr_right fun _ => ?_
  rw [reach_eq_error_iff]
  -- what comes before the part that fails is a path of fields and elements
  have hfront : ∀ {front part back}, p.parts = front ++ part :: back →
      Path.Plain ⟨p.root, front⟩ ∧ ∀ start stop, .slice start stop ≠ part := by
    intro front part back hparts
    constructor
    · intro start stop hmem
      exact hp start stop (hparts ▸ List.mem_append_left _ hmem)
    · rintro start stop rfl
      exact hp start stop (hparts ▸ List.mem_append_right _ List.mem_cons_self)
  constructor
  · rintro (hroot | ⟨front, part, back, w, hparts, hw, hfails⟩)
    · exact .root hroot
    · obtain ⟨hplain, hpart⟩ := hfront hparts
      have hreaches := (resolve_eq_ok_iff hplain).mp (Snapshot.resolve_eq_ok.mpr hw)
      exact .part hparts hreaches ((hreaches.project_eq_error_iff hpart).mp hfails)
  · intro h
    cases h with
    | root hroot => exact .inl hroot
    | part hparts hreaches hfails =>
      obtain ⟨hplain, hpart⟩ := hfront hparts
      have hw := Snapshot.resolve_eq_ok.mp ((resolve_eq_ok_iff hplain).mpr hreaches)
      exact .inr ⟨_, _, _, _, hparts, hw, (hreaches.project_eq_error_iff hpart).mpr hfails⟩

/-- The path could not start. -/
theorem resolve_eq_error_atRoot (hreason : reason.AtRoot) :
    s.snapshot.resolve p = .error ⟨p, reason⟩ ↔ s.Missing p.root reason := by
  rw [Snapshot.resolve_eq_error, reach_eq_error_iff]
  constructor
  · rintro ⟨-, hroot | ⟨front, part, back, w, -, -, hfails⟩⟩
    · exact hroot
    · exact absurd hreason (Target.not_atRoot_of_project hfails)
  · exact fun hroot => ⟨rfl, .inl hroot⟩

/-- Beyond a value, a field or an element leads nowhere. -/
theorem resolve_push_eq_error (hv : s.snapshot.resolve p = .ok (.value v)) {part : Part}
    (hpart : ∀ start stop, .slice start stop ≠ part) :
    s.snapshot.resolve (p.push part) = .error ⟨p.push part, reason⟩ ↔
      (Target.value v).Fails part reason := by
  rw [Snapshot.resolve_eq_error, Snapshot.reach_push, Snapshot.resolve_eq_ok.mp hv,
    ← Value.project_eq_error_iff hpart]
  exact and_iff_right rfl

/-- **The paths of a step lead where they should.** -/
structure Walked (s : Step) (p : Path) : Prop where
  /-- A path of fields and elements leads to the end of its walk, -/
  ok : p.Plain → ∀ t, s.snapshot.resolve p = .ok t ↔ s.Reaches p t
  /-- or nowhere, for the reason of the first part that fails. -/
  error : p.Plain → ∀ d, s.snapshot.resolve p = .error d ↔ d.path = p ∧ s.Misses p d.reason
  /-- Any path starts somewhere, or nowhere. -/
  root : ∀ reason, reason.AtRoot →
    (s.snapshot.resolve p = .error ⟨p, reason⟩ ↔ s.Missing p.root reason)
  /-- The length of a string or array is what it was before it was
  shortened, -/
  outOfRange : ∀ v length n, s.snapshot.resolve p = .ok (.value v) → v.length? = some length →
    (s.snapshot.resolve (p.index n) = .error ⟨p.index n, .indexOutOfRange⟩ ↔ length ≤ n)
  /-- so that what was shortened away is told apart from what never was. -/
  elided : ∀ v length n, s.snapshot.resolve p = .ok (.value v) → v.length? = some length →
    (s.snapshot.resolve (p.index n) = .error ⟨p.index n, .elided⟩ ↔ n < length ∧ v.Lacks n)
  /-- What leads on from nowhere leads nowhere, for the same reason. -/
  dangles : ∀ q d, q.startsWith p = true → s.snapshot.resolve p = .error d →
    d.path = p ∧ s.snapshot.resolve q = .error ⟨q, d.reason⟩
  /-- What leads somewhere does so all the way. -/
  resolves : ∀ q t, q.startsWith p = true → s.snapshot.resolve q = .ok t →
    ∃ w, s.snapshot.resolve p = .ok w

theorem walked (s : Step) (p : Path) : s.Walked p where
  ok hp _ := resolve_eq_ok_iff hp
  error hp _ := resolve_eq_error_iff hp
  root _ := resolve_eq_error_atRoot
  outOfRange v length n hv hlength := by
    rw [Path.index, resolve_push_eq_error hv (by simp)]
    constructor
    · intro h
      cases h with
      | index hlength' hn =>
        cases hlength.symm.trans hlength'
        exact hn
    · exact .index hlength
  elided v length n hv hlength := by
    rw [Path.index, resolve_push_eq_error hv (by simp)]
    constructor
    · intro h
      cases h with
      | elided hlength' hn hlacks =>
        cases hlength.symm.trans hlength'
        exact ⟨hn, hlacks⟩
    · rintro ⟨hn, hlacks⟩
      exact .elided hlength hn hlacks
  dangles q d hq hd := by
    obtain ⟨back, rfl⟩ := Path.startsWith_iff.mp hq
    obtain ⟨hpath, hreach⟩ := Snapshot.resolve_eq_error.mp hd
    refine ⟨hpath, Snapshot.resolve_eq_error.mpr ⟨rfl, ?_⟩⟩
    rw [Snapshot.reach_append, hreach]
    rfl
  resolves q t hq ht := by
    obtain ⟨back, rfl⟩ := Path.startsWith_iff.mp hq
    rw [Snapshot.resolve_eq_ok, Snapshot.reach_append] at ht
    cases hreach : s.snapshot.reach p with
    | ok w => exact ⟨w, Snapshot.resolve_eq_ok.mpr hreach⟩
    | error reason =>
      rw [hreach] at ht
      cases ht

/-- Of four elements the first and the last are kept. What is asked of the
third is told of a lacking element, though its field is asked for. -/
example :
    let items : Excerpt Value := .shorten [.uint 1, .uint 2, .uint 3, .bool true] 1
    let frame : Frame := ⟨"main", ⟨0, 9⟩, ⟨4, 5⟩, [⟨"xs", .array items⟩, ⟨"xs", .unallocated⟩]⟩
    let s : Step := ⟨0, ⟨4, 5⟩, [frame], []⟩
    let xs := Path.stack 0 "xs"
    s.snapshot.resolve (xs.index 3) = .ok (.value (.bool true)) ∧
      s.snapshot.resolve ((xs.index 2).field 0) = .error ⟨(xs.index 2).field 0, .elided⟩ ∧
      s.snapshot.resolve (xs.index 4) = .error ⟨xs.index 4, .indexOutOfRange⟩ :=
  ⟨rfl, rfl, rfl⟩

end Step

end Marginalia
