import Marginalia.Proofs.State.Elision
import Marginalia.Proofs.State.Included

/-!
# State — stretches of stretches

A string, an array and a stretch of either are looked into the same way:
there is a whole, and a window on it (`Target.window?`). To look into a
stretch is therefore to look into what it is a stretch of, further on
(`Target.project_index_of_slice`, `Target.project_slice_of_slice`), and
what lies outside the stretch is out of range, whatever the whole has
there.

The windows of all stretches on the way of a path lie inside the wholes
(`Target.fits_of_mem_passes`). That is also why no sum of offsets is too
large: counted in machine words, where such a sum is refused, a path leads
to the same place (`Snapshot.wordResolve_eq`).
-/

namespace Marginalia

namespace Value

variable {v : Value} {i : Nat} {t : Target}

/-- An element is a code unit of a string or a value of an array. -/
theorem element_eq_ok : v.element i = .ok t ↔
    (∃ e u, v = .string e ∧ e.get? i = some u ∧ t = .unit u) ∨
      ∃ e a, v = .array e ∧ e.get? i = some a ∧ t = .value a := by
  cases v with
  | string e => cases h : e.get? i <;> simp [element, h, eq_comm]
  | array e => cases h : e.get? i <;> simp [element, h, eq_comm]
  | _ => simp [element]

theorem children_of_fields? {fields : List (String × Value)} (h : v.fields? = some fields) :
    v.children = fields.map Prod.snd := by
  cases v with
  | struct name fs => exact congrArg (List.map Prod.snd) (Option.some.inj h)
  | enum name variant fs => exact congrArg (List.map Prod.snd) (Option.some.inj h)
  | _ => cases h

end Value

/-! ## Windows -/

namespace Target

variable {t w : Target} {v : Value} {a b start stop : Nat} {part : Part} {parts : List Part}

/-- The value that this is, or is a stretch of. -/
def whole? : Target → Option Value
  | .value v => some v
  | .unit _ => none
  | .slice v _ _ => some v

/-- What is looked into, where the window on it starts, and where it stops. -/
def window? : Target → Option (Value × Nat × Nat)
  | .value v => v.length?.map fun length => (v, 0, length)
  | .unit _ => none
  | .slice v start stop => v.length?.map fun length => (v, start, min stop length)

theorem project_index (t : Target) (n : Nat) : t.project (.index n) =
    match t.window? with
    | none => .error .notIndexable
    | some (v, start, stop) =>
      if stop ≤ start + n then .error .indexOutOfRange else v.element (start + n) := by
  cases t with
  | unit u => rfl
  | value v =>
    simp only [project, Value.elementOf, window?]
    cases v.length? <;> simp
  | slice v start stop =>
    simp only [project, Value.elementOf, window?]
    cases v.length? <;> rfl

theorem project_slice (t : Target) (lo hi : Nat) : t.project (.slice lo hi) =
    match t.window? with
    | none => .error .notIndexable
    | some (v, start, stop) =>
      if lo ≤ hi ∧ start + hi ≤ stop then .ok (.slice v (start + lo) (start + hi))
      else .error .indexOutOfRange := by
  have hswap : ∀ start stop : Nat,
      (start + hi < start + lo ∨ stop < start + hi) ↔ ¬(lo ≤ hi ∧ start + hi ≤ stop) := by
    omega
  cases t with
  | unit u => rfl
  | value v =>
    simp only [project, Value.sliceOf, window?, hswap, ite_not]
    cases v.length? <;> simp
  | slice v start stop =>
    simp only [project, Value.sliceOf, window?, hswap, ite_not]
    cases v.length? <;> rfl

/-- A window does not reach past the whole. -/
theorem exists_length_of_window? (h : t.window? = some (v, start, stop)) :
    t.whole? = some v ∧ ∃ length, v.length? = some length ∧ stop ≤ length := by
  cases t with
  | unit u => cases h
  | value _ =>
    simp only [window?, Option.map_eq_some_iff, Prod.mk.injEq] at h
    obtain ⟨length, hlength, rfl, -, rfl⟩ := h
    exact ⟨rfl, _, hlength, Nat.le_refl _⟩
  | slice _ _ _ =>
    simp only [window?, Option.map_eq_some_iff, Prod.mk.injEq] at h
    obtain ⟨length, hlength, rfl, -, rfl⟩ := h
    exact ⟨rfl, length, hlength, Nat.min_le_right ..⟩

/-- A stretch is a window inside the window that it was taken from. -/
theorem window?_of_slice (h : t.project (.slice a b) = .ok w) :
    ∃ v start stop, t.window? = some (v, start, stop) ∧ a ≤ b ∧ start + b ≤ stop ∧
      w = .slice v (start + a) (start + b) ∧ w.window? = some (v, start + a, start + b) := by
  rw [project_slice] at h
  split at h
  · cases h
  · rename_i v start stop hwindow
    split at h
    · rename_i hinside
      cases h
      refine ⟨v, start, stop, hwindow, hinside.1, hinside.2, rfl, ?_⟩
      obtain ⟨-, length, hlength, hstop⟩ := exists_length_of_window? hwindow
      have hmin : min (start + b) length = start + b := by omega
      rw [window?, hlength, Option.map_some, hmin]
    · cases h

/-- **An element of a stretch** is an element of what it is a stretch of. -/
theorem project_index_of_slice (h : t.project (.slice a b) = .ok w) (n : Nat) :
    w.project (.index n) =
      if n < b - a then t.project (.index (a + n)) else .error .indexOutOfRange := by
  obtain ⟨v, start, stop, ht, hab, hb, -, hw⟩ := window?_of_slice h
  rw [project_index, project_index, ht, hw]
  dsimp only
  rw [Nat.add_assoc]
  by_cases hn : n < b - a
  · rw [if_pos hn, if_neg (by omega), if_neg (by omega)]
  · rw [if_neg hn, if_pos (by omega)]

/-- **A stretch of a stretch** is a stretch of the whole. -/
theorem project_slice_of_slice (h : t.project (.slice a b) = .ok w) (c d : Nat) :
    w.project (.slice c d) =
      if c ≤ d ∧ d ≤ b - a then t.project (.slice (a + c) (a + d))
      else .error .indexOutOfRange := by
  obtain ⟨v, start, stop, ht, hab, hb, -, hw⟩ := window?_of_slice h
  rw [project_slice, project_slice, ht, hw]
  dsimp only
  rw [Nat.add_assoc, Nat.add_assoc]
  by_cases hcd : c ≤ d ∧ d ≤ b - a
  · rw [if_pos hcd, if_pos (by omega), if_pos (by omega)]
  · rw [if_neg hcd, if_neg (by omega)]

/-- The window of a stretch lies inside the whole. -/
def Fits : Target → Prop
  | .slice v start stop => ∃ length, v.length? = some length ∧ start ≤ stop ∧ stop ≤ length
  | _ => True

/-- **What one part of a path leads to**: a code unit, a value right
inside, or a stretch with its window inside the same whole. -/
theorem project_cases (h : t.project part = .ok w) : (∃ u, w = .unit u) ∨
    ∃ v, t.whole? = some v ∧ ((∃ c ∈ v.children, w = .value c) ∨
      ∃ start stop, w = .slice v start stop ∧ w.Fits) := by
  cases part with
  | field n =>
    cases t with
    | value v =>
      simp only [project] at h
      split at h
      · cases h
      · rename_i fields hfields
        split at h
        · rename_i name c hc
          cases h
          have hmem : c ∈ v.children := by
            rw [Value.children_of_fields? hfields]
            exact List.mem_map_of_mem (f := Prod.snd) (List.mem_of_getElem? hc)
          exact .inr ⟨v, rfl, .inl ⟨c, hmem, rfl⟩⟩
        · cases h
    | _ => cases h
  | index n =>
    rw [project_index] at h
    split at h
    · cases h
    · rename_i v start stop hwindow
      obtain ⟨hwhole, -⟩ := exists_length_of_window? hwindow
      split at h
      · cases h
      · rcases Value.element_eq_ok.mp h with ⟨e, u, -, -, rfl⟩ | ⟨e, a, rfl, ha, rfl⟩
        · exact .inl ⟨u, rfl⟩
        · refine .inr ⟨_, hwhole, .inl ⟨a, ?_, rfl⟩⟩
          rw [Value.children_array, List.mem_append, Option.mem_toList]
          exact (Excerpt.get?_eq_some.mp ha).imp List.mem_of_getElem? fun hlast => hlast.2.2
  | slice lo hi =>
    obtain ⟨v, start, stop, hwindow, hlohi, hstop, rfl, -⟩ := window?_of_slice h
    obtain ⟨hwhole, length, hlength, hle⟩ := exists_length_of_window? hwindow
    exact .inr ⟨v, hwhole, .inr ⟨_, _, rfl, length, hlength, by omega, by omega⟩⟩

theorem fits_of_project (h : t.project part = .ok w) : w.Fits := by
  rcases project_cases h with ⟨u, rfl⟩ | ⟨v, -, ⟨c, -, rfl⟩ | ⟨start, stop, -, hfits⟩⟩
  · trivial
  · trivial
  · exact hfits

/-! ## On the way -/

theorem follow_append (t : Target) (front back : List Part) :
    t.follow (front ++ back) = (t.follow front).bind fun w => w.follow back := by
  induction front generalizing t with
  | nil => rfl
  | cons part front ih =>
    simp only [List.cons_append, follow]
    cases t.project part with
    | ok w => exact ih w
    | error reason => rfl

/-- Where one is before the first part and after each that can be followed. -/
def passes (t : Target) : List Part → List Target
  | [] => [t]
  | part :: parts =>
    match t.project part with
    | .ok w => t :: w.passes parts
    | .error _ => [t]

/-- These are the places that the path leads to when it is cut short. -/
theorem mem_passes :
    w ∈ t.passes parts ↔ ∃ front, front <+: parts ∧ t.follow front = .ok w := by
  induction parts generalizing t with
  | nil => simp [passes, follow, eq_comm]
  | cons part parts ih =>
    simp only [List.prefix_cons_iff, passes]
    constructor
    · intro hmem
      split at hmem
      · rename_i w' hproject
        rcases List.mem_cons.mp hmem with rfl | hmem
        · exact ⟨[], .inl rfl, rfl⟩
        · obtain ⟨front, hfront, hfollow⟩ := ih.mp hmem
          refine ⟨part :: front, .inr ⟨front, rfl, hfront⟩, ?_⟩
          rw [follow, hproject]
          exact hfollow
      · cases List.mem_singleton.mp hmem
        exact ⟨[], .inl rfl, rfl⟩
    · rintro ⟨front, rfl | ⟨front, rfl, hfront⟩, hfollow⟩
      · cases hfollow
        split <;> exact List.mem_cons_self
      · rw [follow] at hfollow
        cases hproject : t.project part with
        | ok w' =>
          rw [hproject] at hfollow
          exact List.mem_cons_of_mem _ (ih.mpr ⟨front, hfront, hfollow⟩)
        | error reason =>
          rw [hproject] at hfollow
          cases hfollow

/-- **Every stretch on the way fits** its whole. -/
theorem fits_of_mem_passes (ht : t.Fits) (h : w ∈ t.passes parts) : w.Fits := by
  induction parts generalizing t with
  | nil =>
    cases List.mem_singleton.mp h
    exact ht
  | cons part parts ih =>
    rw [passes] at h
    split at h
    · rename_i w' hproject
      rcases List.mem_cons.mp h with rfl | h
      · exact ht
      · exact ih (fits_of_project hproject) h
    · cases List.mem_singleton.mp h
      exact ht

end Target

namespace Snapshot

variable {s : Snapshot} {p : Path} {t w : Target} {a b : Nat}

/-- A path is followed from where its front leads. -/
theorem reach_append (s : Snapshot) (p : Path) (parts : List Part) :
    s.reach ⟨p.root, p.parts ++ parts⟩ = (s.reach p).bind fun t => t.follow parts := by
  simp only [reach]
  cases s.root p.root with
  | error reason => rfl
  | ok v => exact Target.follow_append (.value v) p.parts parts

/-- One step further. -/
theorem reach_push (s : Snapshot) (p : Path) (part : Part) :
    s.reach (p.push part) = (s.reach p).bind fun t => t.project part := by
  have hone : ∀ t : Target, t.follow [part] = t.project part := by
    intro t
    simp only [Target.follow]
    cases t.project part <;> rfl
  rw [Path.push, reach_append]
  simp only [hone]

theorem resolve_eq_ok : s.resolve p = .ok t ↔ s.reach p = .ok t := by
  rw [resolve_eq]
  cases s.reach p <;> simp [Except.mapError]

/-- What is said of a path that leads nowhere is said of the whole path. -/
theorem resolve_eq_error {d : Dangling} :
    s.resolve p = .error d ↔ d.path = p ∧ s.reach p = .error d.reason := by
  obtain ⟨path, reason⟩ := d
  rw [resolve_eq]
  cases s.reach p <;> simp [Except.mapError, eq_comm]

/-- What lies beyond a place that the path does not lead to. -/
theorem reach_push_eq_ok {part : Part} :
    s.reach (p.push part) = .ok w ↔ ∃ t, s.reach p = .ok t ∧ t.project part = .ok w := by
  rw [reach_push]
  cases s.reach p <;> simp [Except.bind]

section Stretch

-- `part` leads on from any stretch as `further` does from what it is a
-- stretch of, as long as it stays inside
variable {part further : Part} {inside : Prop} [Decidable inside]
variable (hpart : ∀ t w : Target, t.project (.slice a b) = .ok w →
  w.project part = if inside then t.project further else .error .indexOutOfRange)

include hpart

theorem resolve_push_slice_eq_ok :
    s.resolve ((p.slice a b).push part) = .ok t ↔
      (∃ w, s.resolve (p.slice a b) = .ok w) ∧ inside ∧ s.resolve (p.push further) = .ok t := by
  simp only [resolve_eq_ok, Path.slice, reach_push_eq_ok]
  constructor
  · rintro ⟨w, ⟨t', ht', hslice⟩, hw⟩
    rw [hpart t' w hslice] at hw
    split at hw
    · rename_i hinside
      exact ⟨⟨w, t', ht', hslice⟩, hinside, t', ht', hw⟩
    · cases hw
  · rintro ⟨⟨w, t', ht', hslice⟩, hinside, t'', ht'', hfurther⟩
    obtain rfl := Except.ok.inj (ht'.symm.trans ht'')
    refine ⟨w, ⟨t', ht', hslice⟩, ?_⟩
    rw [hpart t' w hslice, if_pos hinside, hfurther]

theorem resolve_push_slice_outside (hw : s.resolve (p.slice a b) = .ok w) (hinside : ¬inside) :
    s.resolve ((p.slice a b).push part) =
      .error ⟨(p.slice a b).push part, .indexOutOfRange⟩ := by
  rw [resolve_eq_ok] at hw
  obtain ⟨t', -, hslice⟩ := reach_push_eq_ok.mp hw
  refine resolve_eq_error.mpr ⟨rfl, ?_⟩
  rw [reach_push, hw]
  exact (hpart t' w hslice).trans (if_neg hinside)

end Stretch

/-- **A stretch can be left out** of the path to what is inside it. -/
structure Fuses (s : Snapshot) (p : Path) (a b : Nat) : Prop where
  /-- An element of the stretch is the element that much further on. -/
  index : ∀ n t, s.resolve ((p.slice a b).index n) = .ok t ↔
    (∃ w, s.resolve (p.slice a b) = .ok w) ∧ n < b - a ∧ s.resolve (p.index (a + n)) = .ok t
  /-- A stretch of the stretch lies that much further on. -/
  slice : ∀ c d t, s.resolve ((p.slice a b).slice c d) = .ok t ↔
    (∃ w, s.resolve (p.slice a b) = .ok w) ∧ (c ≤ d ∧ d ≤ b - a) ∧
      s.resolve (p.slice (a + c) (a + d)) = .ok t
  /-- What is outside the stretch is out of range. -/
  indexOutside : ∀ w, s.resolve (p.slice a b) = .ok w → ∀ n, b - a ≤ n →
    s.resolve ((p.slice a b).index n) = .error ⟨(p.slice a b).index n, .indexOutOfRange⟩
  sliceOutside : ∀ w, s.resolve (p.slice a b) = .ok w → ∀ c d, d < c ∨ b - a < d →
    s.resolve ((p.slice a b).slice c d) = .error ⟨(p.slice a b).slice c d, .indexOutOfRange⟩

theorem fuses (s : Snapshot) (p : Path) (a b : Nat) : s.Fuses p a b where
  index n _ := resolve_push_slice_eq_ok fun _ _ h => Target.project_index_of_slice h n
  slice c d _ := resolve_push_slice_eq_ok fun _ _ h => Target.project_slice_of_slice h c d
  indexOutside _ hw n hn :=
    resolve_push_slice_outside (fun _ _ h => Target.project_index_of_slice h n) hw (by omega)
  sliceOutside _ hw c d hcd :=
    resolve_push_slice_outside (fun _ _ h => Target.project_slice_of_slice h c d) hw (by omega)

/-- Where one is on the way of a path, its end included. -/
def passes (s : Snapshot) (p : Path) : List Target :=
  match s.root p.root with
  | .ok v => (Target.value v).passes p.parts
  | .error _ => []

/-- These are the places that the path leads to when it is cut short. -/
theorem mem_passes :
    w ∈ s.passes p ↔ ∃ front, front <+: p.parts ∧ s.resolve ⟨p.root, front⟩ = .ok w := by
  simp only [resolve_eq_ok, passes, reach]
  cases s.root p.root with
  | ok v => exact Target.mem_passes
  | error reason => simp [Except.map, Except.bind]

theorem fits_of_mem_passes (h : w ∈ s.passes p) : w.Fits := by
  unfold passes at h
  split at h
  · exact Target.fits_of_mem_passes (t := .value _) trivial h
  · cases h

end Snapshot

/-! ## Machine words -/

/-- Every length in the value is a machine word. -/
def Value.Sized (v : Value) : Prop :=
  ∀ w length, v.Holds w → w.length? = some length → length < wordBound

/-- Every length in what paths start from is a machine word. -/
def Snapshot.Sized (s : Snapshot) : Prop := ∀ root v, s.root root = .ok v → v.Sized

theorem Word.add?_of_lt {a b : Nat} (h : a + b < wordBound) : Word.add? a b = some (a + b) :=
  if_pos h

theorem Word.add?_of_le {a b : Nat} (h : wordBound ≤ a + b) : Word.add? a b = none :=
  if_neg (Nat.not_lt.mpr h)

namespace Value

variable {v : Value}

theorem sized_of_children (hlength : ∀ length, v.length? = some length → length < wordBound)
    (h : ∀ c ∈ v.children, c.Sized) : v.Sized := by
  intro w length hw
  rcases holds_iff.mp hw with rfl | ⟨c, hc, hw⟩
  · exact hlength length
  · exact h c hc w length hw

theorem Sized.length_lt (h : v.Sized) {length : Nat} (hlength : v.length? = some length) :
    length < wordBound :=
  h v length (holds_iff.mpr (.inl rfl)) hlength

theorem Sized.child (h : v.Sized) {c : Value} (hc : c ∈ v.children) : c.Sized :=
  fun w length hw hlength => h w length (holds_iff.mpr (.inr ⟨c, hc, hw⟩)) hlength

/-- `element` as it is counted in machine words. -/
def wordElement (v : Value) (index : Nat) : Except Reason Target :=
  match v with
  | .string units =>
    match units.wordGet? index with
    | some u => .ok (.unit u)
    | none => .error .elided
  | .array items =>
    match items.wordGet? index with
    | some item => .ok (.value item)
    | none => .error .elided
  | _ => .error .notIndexable

/-- `elementOf` as it is counted in machine words. -/
def wordElementOf (v : Value) (start : Nat) (stop : Option Nat) (n : Nat) :
    Except Reason Target :=
  match v.length?, Word.add? start n with
  | none, _ => .error .notIndexable
  | some _, none => .error .indexOutOfRange
  | some length, some index =>
    if min (stop.getD length) length ≤ index then .error .indexOutOfRange
    else v.wordElement index

/-- `sliceOf` as it is counted in machine words. -/
def wordSliceOf (v : Value) (start : Nat) (stop : Option Nat) (lo hi : Nat) :
    Except Reason Target :=
  match v.length?, Word.add? start lo, Word.add? start hi with
  | none, _, _ => .error .notIndexable
  | some length, some first, some last =>
    if last < first ∨ min (stop.getD length) length < last then .error .indexOutOfRange
    else .ok (.slice v first last)
  | some _, _, _ => .error .indexOutOfRange

theorem wordElement_eq (h : v.Sized) (i : Nat) : v.wordElement i = v.element i := by
  cases v with
  | string e =>
    have hget : e.wordGet? i = e.get? i := Excerpt.wordGet?_eq (h.length_lt rfl) i
    cases h : e.get? i <;> simp [wordElement, element, hget, h]
  | array e =>
    have hget : e.wordGet? i = e.get? i := Excerpt.wordGet?_eq (h.length_lt rfl) i
    cases h : e.get? i <;> simp [wordElement, element, hget, h]
  | _ => rfl

/-- A sum that is refused is past the end of the whole. -/
theorem wordElementOf_eq (h : v.Sized) (start : Nat) (stop : Option Nat) (n : Nat) :
    v.wordElementOf start stop n = v.elementOf start stop n := by
  unfold wordElementOf elementOf
  cases hlength : v.length? with
  | none => rfl
  | some length =>
    have hlt := h.length_lt hlength
    rcases Nat.lt_or_ge (start + n) wordBound with hfits | hlarge
    · rw [Word.add?_of_lt hfits]
      simp only [wordElement_eq h]
    · rw [Word.add?_of_le hlarge]
      exact (if_pos (by omega)).symm

theorem wordSliceOf_eq (h : v.Sized) (start : Nat) (stop : Option Nat) (lo hi : Nat) :
    v.wordSliceOf start stop lo hi = v.sliceOf start stop lo hi := by
  unfold wordSliceOf sliceOf
  cases hlength : v.length? with
  | none => rfl
  | some length =>
    have hlt := h.length_lt hlength
    rcases Nat.lt_or_ge (start + hi) wordBound with hfits | hlarge
    · rw [Word.add?_of_lt hfits]
      rcases Nat.lt_or_ge (start + lo) wordBound with hlo | hlo
      · rw [Word.add?_of_lt hlo]
      · rw [Word.add?_of_le hlo]
        exact (if_pos (.inl (by omega))).symm
    · rw [Word.add?_of_le hlarge]
      refine Eq.trans ?_ (if_pos (.inr ?_)).symm
      · cases Word.add? start lo <;> rfl
      · omega

end Value

namespace Target

variable {t w : Target} {part : Part}

/-- Every length in the value that this is or is a stretch of is a machine
word. -/
def Sized (t : Target) : Prop := ∀ v, t.whole? = some v → v.Sized

theorem Sized.project (ht : t.Sized) (h : t.project part = .ok w) : w.Sized := by
  rcases project_cases h with ⟨u, rfl⟩ | ⟨v, hv, ⟨c, hc, rfl⟩ | ⟨start, stop, rfl, -⟩⟩
  · intro v hv
    cases hv
  · rintro _ ⟨⟩
    exact (ht v hv).child hc
  · rintro _ ⟨⟩
    exact ht v hv

/-- `project` as it is counted in machine words. -/
def wordProject : Target → Part → Except Reason Target
  | .value v, .index n => v.wordElementOf 0 none n
  | .slice v start stop, .index n => v.wordElementOf start (some stop) n
  | .value v, .slice lo hi => v.wordSliceOf 0 none lo hi
  | .slice v start stop, .slice lo hi => v.wordSliceOf start (some stop) lo hi
  | t, part => t.project part

/-- `follow` as it is counted in machine words. -/
def wordFollow (t : Target) : List Part → Except Reason Target
  | [] => .ok t
  | part :: parts =>
    match t.wordProject part with
    | .ok t => t.wordFollow parts
    | .error reason => .error reason

theorem wordProject_eq (ht : t.Sized) (part : Part) : t.wordProject part = t.project part := by
  cases t with
  | unit u => cases part <;> rfl
  | value v =>
    have hv : v.Sized := ht v rfl
    cases part with
    | field n => rfl
    | index n => exact Value.wordElementOf_eq hv ..
    | slice lo hi => exact Value.wordSliceOf_eq hv ..
  | slice v start stop =>
    have hv : v.Sized := ht v rfl
    cases part with
    | field n => rfl
    | index n => exact Value.wordElementOf_eq hv ..
    | slice lo hi => exact Value.wordSliceOf_eq hv ..

theorem wordFollow_eq (ht : t.Sized) (parts : List Part) :
    t.wordFollow parts = t.follow parts := by
  induction parts generalizing t with
  | nil => rfl
  | cons part parts ih =>
    rw [wordFollow, follow, wordProject_eq ht]
    cases hproject : t.project part with
    | ok w => exact ih (ht.project hproject)
    | error reason => rfl

end Target

namespace Snapshot

/-- `resolve` as it is counted in machine words. -/
def wordResolve (s : Snapshot) (path : Path) : Except Dangling Target :=
  let target := match s.root path.root with
    | .ok v => (Target.value v).wordFollow path.parts
    | .error reason => .error reason
  target.mapError fun reason => ⟨path, reason⟩

/-- **No sum of offsets is too large.** -/
theorem wordResolve_eq {s : Snapshot} (h : s.Sized) (p : Path) :
    s.wordResolve p = s.resolve p := by
  unfold wordResolve resolve
  cases hroot : s.root p.root with
  | error reason => rfl
  | ok v =>
    have hv : (Target.value v).Sized := by
      rintro _ ⟨⟩
      exact h p.root v hroot
    dsimp only
    rw [Target.wordFollow_eq hv]

/-- **Stretches fuse.** However deep they are nested, an element or a
stretch of a stretch is one of the string or array itself, no window ever
reaches past it, and machine words do to count the offsets. -/
theorem stretches_fuse (s : Snapshot) :
    (∀ p a b, s.Fuses p a b) ∧
      (∀ p v start stop, .slice v start stop ∈ s.passes p →
        ∃ length, v.length? = some length ∧ start ≤ stop ∧ stop ≤ length) ∧
      (s.Sized → ∀ p, s.wordResolve p = s.resolve p) := by
  refine ⟨s.fuses, ?_, wordResolve_eq⟩
  intro p v start stop hmem
  exact fits_of_mem_passes hmem

/-- The last letter of an alphabet, two stretches down. The last path asks
for a sum that is no machine word. -/
theorem stretches_fuse_of_alphabet :
    let text : Value := .string ⟨[97, 98], some 122, 26⟩
    let s : Snapshot := ⟨[], [text]⟩
    let outer := (Path.heap 0).slice 1 26
    let inner := outer.slice 1 25
    s.Sized ∧ s.resolve (outer.index 24) = .ok (.unit 122) ∧
      s.resolve (inner.index 23) = .ok (.unit 122) ∧
      s.resolve (inner.index 24) = .error ⟨inner.index 24, .indexOutOfRange⟩ ∧
      (∃ length, text.length? = some length ∧ 2 ≤ 26 ∧ 26 ≤ length) ∧
      s.wordResolve (inner.index 18446744073709551615) =
        .error ⟨inner.index 18446744073709551615, .indexOutOfRange⟩ := by
  intro text s outer inner
  have htext : text.Sized := by
    refine Value.sized_of_children ?_ (List.forall_mem_nil _)
    rintro _ ⟨⟩
    decide
  have hsized : s.Sized := by
    intro root v hroot
    cases root with
    | stack frame name => cases hroot
    | heap index =>
      cases index with
      | zero =>
        cases hroot
        exact htext
      | succ index => cases hroot
  have hfuse := stretches_fuse s
  have hinner : s.resolve inner = .ok (.slice text 2 26) := rfl
  have hlast : s.resolve (outer.index 24) = .ok (.unit 122) := rfl
  have hpass : .slice text 2 26 ∈ s.passes inner :=
    mem_passes.mpr ⟨inner.parts, List.prefix_rfl, hinner⟩
  refine ⟨hsized, hlast, ?_, ?_, hfuse.2.1 inner _ _ _ hpass, ?_⟩
  · exact ((hfuse.1 outer 1 25).index 23 _).mpr ⟨⟨_, hinner⟩, by decide, hlast⟩
  · exact (hfuse.1 outer 1 25).indexOutside _ hinner _ (by decide)
  · rw [hfuse.2.2 hsized]
    exact (hfuse.1 outer 1 25).indexOutside _ hinner _ (by decide)

end Snapshot

end Marginalia
