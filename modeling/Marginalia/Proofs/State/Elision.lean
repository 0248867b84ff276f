import Marginalia.State.Snapshot
import Marginalia.Proofs.State.Excerpt
import Marginalia.Proofs.State.Value
import Mathlib.Data.List.Forall2

/-!
# State — what is lacking does not change where a path leads

A value abbreviates another if the two differ only in that its excerpts
lack elements that those of the other have (`Value.Abbreviates`). A path
that leads somewhere in an abbreviated snapshot leads to the same place of
the full one, and one that fails there for any other reason than a lacking
element fails in the full one for the same reason
(`Snapshot.Abbreviates.resolve`).

To shorten strings and arrays anywhere in a value abbreviates it
(`Value.Shortens.abbreviates`).
-/

namespace Marginalia

/-! ## Abbreviated values -/

/-- **`v'` abbreviates `v`**: kinds, names and numbers are the same, and
every element that `v'` has `v` has at the same index. -/
inductive Value.Abbreviates : Value → Value → Prop
  /-- What has neither fields nor elements is the same. -/
  | plain {v : Value} : v.fields? = none → v.length? = none → Abbreviates v v
  /-- A struct of the same name, with the same fields in the same order. -/
  | struct {name : String} {fs' fs : List (String × Value)} :
      fs'.map Prod.fst = fs.map Prod.fst →
      (∀ (n : Nat) f' f, fs'[n]? = some f' → fs[n]? = some f → Abbreviates f'.2 f.2) →
      Abbreviates (.struct name fs') (.struct name fs)
  /-- The same variant of the same enum, its fields like those of a struct. -/
  | enum {name variant : String} {fs' fs : List (String × Value)} :
      fs'.map Prod.fst = fs.map Prod.fst →
      (∀ (n : Nat) f' f, fs'[n]? = some f' → fs[n]? = some f → Abbreviates f'.2 f.2) →
      Abbreviates (.enum name variant fs') (.enum name variant fs)
  /-- A string of the same length, whose code units are those of the other. -/
  | string {e' e : Excerpt UInt32} :
      e'.length = e.length → (∀ i u, e'.get? i = some u → e.get? i = some u) →
      Abbreviates (.string e') (.string e)
  /-- An array of the same length, whose elements the other has as well and
  abbreviate them. -/
  | array {e' e : Excerpt Value} :
      e'.length = e.length → (∀ i a', e'.get? i = some a' → ∃ a, e.get? i = some a) →
      (∀ i a' a, e'.get? i = some a' → e.get? i = some a → Abbreviates a' a) →
      Abbreviates (.array e') (.array e)

/-- Locals or fields of the same names in the same order, whose values are
related. -/
def FieldsRelate (R : Value → Value → Prop) (fs' fs : List (String × Value)) : Prop :=
  List.Forall₂ (fun f' f => f'.1 = f.1 ∧ R f'.2 f.2) fs' fs

/-- **`s'` abbreviates `s`**: the frames, their locals and the heap cells
are the same, and their values abbreviate. -/
structure Snapshot.Abbreviates (s' s : Snapshot) : Prop where
  frames : List.Forall₂ (FieldsRelate Value.Abbreviates) s'.frames s.frames
  heap : List.Forall₂ Value.Abbreviates s'.heap s.heap

/-- The same place in an abbreviated and in the full snapshot. -/
inductive Target.Abbreviates : Target → Target → Prop
  | value {v' v : Value} : v'.Abbreviates v → Abbreviates (.value v') (.value v)
  | unit (u : UInt32) : Abbreviates (.unit u) (.unit u)
  | slice {v' v : Value} (start stop : Nat) :
      v'.Abbreviates v → Abbreviates (.slice v' start stop) (.slice v start stop)

/-- What a path comes to in an abbreviated snapshot, and in the full one. -/
inductive Target.Accords : Except Reason Target → Except Reason Target → Prop
  /-- The same place in both. -/
  | found {t' t : Target} : t'.Abbreviates t → Accords (.ok t') (.ok t)
  /-- Nothing there, for the same reason. -/
  | dangling (reason : Reason) : Accords (.error reason) (.error reason)
  /-- An element is lacking, and nothing is said of the full snapshot. -/
  | elided (result : Except Reason Target) : Accords (.error .elided) result

/-- Related fields are found together, by position. -/
theorem getElem?_of_forall₂ {α β : Type} {R : α → β → Prop} {l' : List α} {l : List β}
    (h : List.Forall₂ R l' l) (n : Nat) : Option.Rel R l'[n]? l[n]? := by
  induction h generalizing n with
  | nil => exact .none
  | cons hhead _ ih =>
    cases n with
    | zero => exact .some hhead
    | succ n => exact ih n

/-- Related fields are found together, by name. -/
theorem FieldsRelate.find? {R : Value → Value → Prop} {fs' fs : List (String × Value)}
    (h : FieldsRelate R fs' fs) (name : String) :
    Option.Rel R ((fs'.find? fun f => f.1 = name).map Prod.snd)
      ((fs.find? fun f => f.1 = name).map Prod.snd) := by
  induction h with
  | nil => exact .none
  | cons hhead _ ih =>
    obtain ⟨hname, hvalue⟩ := hhead
    simp only [List.find?_cons, hname]
    split
    · exact .some hvalue
    · exact ih

/-- Fields that are related one by one. -/
theorem FieldsRelate.of_getElem? {R : Value → Value → Prop} {fs' fs : List (String × Value)}
    (hnames : fs'.map Prod.fst = fs.map Prod.fst)
    (h : ∀ (n : Nat) f' f, fs'[n]? = some f' → fs[n]? = some f → R f'.2 f.2) :
    FieldsRelate R fs' fs := by
  have hlength : fs'.length = fs.length := by simpa using congrArg List.length hnames
  refine List.forall₂_iff_get.mpr ⟨hlength, fun n h' hn => ⟨?_, ?_⟩⟩
  · have := congrArg (·[n]?) hnames
    simpa [h', hn] using this
  · exact h n _ _ (List.getElem?_eq_getElem h') (List.getElem?_eq_getElem hn)

namespace Value

variable {v' v : Value}

/-! ## What an abbreviated value shows -/

/-- Fields are there in both or in neither. -/
theorem Abbreviates.fields? (h : v'.Abbreviates v) :
    Option.Rel (FieldsRelate Abbreviates) v'.fields? v.fields? := by
  cases h with
  | plain hfields _ => rw [hfields]; exact .none
  | struct hnames h => exact .some (.of_getElem? hnames h)
  | enum hnames h => exact .some (.of_getElem? hnames h)
  | string _ _ => exact .none
  | array _ _ _ => exact .none

/-- Bounds are checked against the same length. -/
theorem Abbreviates.length? (h : v'.Abbreviates v) : v'.length? = v.length? := by
  cases h with
  | plain _ _ => rfl
  | struct _ _ => rfl
  | enum _ _ => rfl
  | string hlength _ => exact congrArg some hlength
  | array hlength _ _ => exact congrArg some hlength

theorem Abbreviates.element (h : v'.Abbreviates v) (i : Nat) :
    Target.Accords (v'.element i) (v.element i) := by
  cases h with
  | plain _ hlength =>
    cases v' with
    | string units => cases hlength
    | array items => cases hlength
    | _ => exact .dangling _
  | struct _ _ => exact .dangling _
  | enum _ _ => exact .dangling _
  | @string e' e _ hunits =>
    cases he' : e'.get? i with
    | none => simp only [Value.element, he']; exact .elided _
    | some u =>
      simp only [Value.element, he', hunits i u he']
      exact .found (.unit u)
  | @array e' e _ hitems h =>
    cases he' : e'.get? i with
    | none => simp only [Value.element, he']; exact .elided _
    | some a' =>
      obtain ⟨a, he⟩ := hitems i a' he'
      simp only [Value.element, he', he]
      exact .found (.value (h i a' a he' he))

theorem Abbreviates.elementOf (h : v'.Abbreviates v) (start : Nat) (stop : Option Nat) (n : Nat) :
    Target.Accords (v'.elementOf start stop n) (v.elementOf start stop n) := by
  simp only [Value.elementOf, h.length?]
  cases v.length? with
  | none => exact .dangling _
  | some length =>
    dsimp only
    split
    · exact .dangling _
    · exact h.element _

theorem Abbreviates.sliceOf (h : v'.Abbreviates v) (start : Nat) (stop : Option Nat)
    (lo hi : Nat) : Target.Accords (v'.sliceOf start stop lo hi) (v.sliceOf start stop lo hi) := by
  simp only [Value.sliceOf, h.length?]
  cases v.length? with
  | none => exact .dangling _
  | some length =>
    dsimp only
    split
    · exact .dangling _
    · exact .found (.slice _ _ h)

end Value

/-! ## Following a path -/

namespace Target

variable {t' t : Target}

/-- One part of a path. -/
theorem Abbreviates.project (h : t'.Abbreviates t) (part : Part) :
    Accords (t'.project part) (t.project part) := by
  cases h with
  | @value v' v h =>
    cases part with
    | field n =>
      have hfields := h.fields?
      simp only [Target.project]
      generalize v'.fields? = o', v.fields? = o at hfields ⊢
      cases hfields with
      | none => exact .dangling _
      | @some fs' fs hfields =>
        have hfield := getElem?_of_forall₂ hfields n
        dsimp only
        generalize fs'[n]? = o', fs[n]? = o at hfield ⊢
        cases hfield with
        | none => exact .dangling _
        | some hfield => exact .found (.value hfield.2)
    | index n => exact h.elementOf 0 none n
    | slice lo hi => exact h.sliceOf 0 none lo hi
  | unit u => cases part <;> exact .dangling _
  | slice start stop h =>
    cases part with
    | field n => exact .dangling _
    | index n => exact h.elementOf start (some stop) n
    | slice lo hi => exact h.sliceOf start (some stop) lo hi

/-- The parts of a path, one after the other. -/
theorem Abbreviates.follow (h : t'.Abbreviates t) (parts : List Part) :
    Accords (t'.follow parts) (t.follow parts) := by
  induction parts generalizing t' t with
  | nil => exact .found h
  | cons part parts ih =>
    have hpart := h.project part
    simp only [Target.follow]
    generalize t'.project part = r' at hpart ⊢
    generalize t.project part = r at hpart ⊢
    cases hpart with
    | found h => exact ih h
    | dangling reason => exact .dangling reason
    | elided _ => exact .elided _

end Target

namespace Snapshot

variable {s' s : Snapshot}

theorem Abbreviates.local? (h : s'.Abbreviates s) (frame : Nat) (name : String) :
    Option.Rel Value.Abbreviates (s'.local? frame name) (s.local? frame name) := by
  have hlocals := getElem?_of_forall₂ h.frames frame
  simp only [Snapshot.local?]
  generalize s'.frames[frame]? = o', s.frames[frame]? = o at hlocals ⊢
  cases hlocals with
  | none => exact .none
  | some hlocals => exact hlocals.find? name

/-- Where a path starts. -/
theorem Abbreviates.root (h : s'.Abbreviates s) (root : Root) :
    Target.Accords ((s'.root root).map .value) ((s.root root).map .value) := by
  cases root with
  | stack frame name =>
    have hlocal := h.local? frame name
    simp only [Snapshot.root, h.frames.length_eq]
    split
    · exact .dangling _
    · generalize s'.local? frame name = o', s.local? frame name = o at hlocal ⊢
      cases hlocal with
      | none => exact .dangling _
      | some hvalue => exact .found (.value hvalue)
  | heap index =>
    have hcell := getElem?_of_forall₂ h.heap index
    simp only [Snapshot.root]
    generalize s'.heap[index]? = o', s.heap[index]? = o at hcell ⊢
    cases hcell with
    | none => exact .dangling _
    | some hvalue => exact .found (.value hvalue)

/-- What a path comes to, a failure without the path. -/
def reach (s : Snapshot) (p : Path) : Except Reason Target :=
  ((s.root p.root).map Target.value).bind fun t => t.follow p.parts

theorem resolve_eq (s : Snapshot) (p : Path) :
    s.resolve p = (s.reach p).mapError fun reason => ⟨p, reason⟩ := by
  unfold resolve reach
  cases s.root p.root <;> rfl

theorem Abbreviates.reach (h : s'.Abbreviates s) (p : Path) :
    Target.Accords (s'.reach p) (s.reach p) := by
  have hroot := h.root p.root
  unfold Snapshot.reach
  generalize (s'.root p.root).map Target.value = r', (s.root p.root).map Target.value = r
    at hroot ⊢
  cases hroot with
  | found h => exact h.follow p.parts
  | dangling reason => exact .dangling reason
  | elided _ => exact .elided _

/-- What an abbreviated snapshot shows along a path, the full one shows. -/
theorem Abbreviates.resolve_ok (h : s'.Abbreviates s) {p : Path} {t' : Target}
    (ht : s'.resolve p = .ok t') : ∃ t, s.resolve p = .ok t ∧ t'.Abbreviates t := by
  have haccords := h.reach p
  rw [resolve_eq] at ht ⊢
  generalize s'.reach p = r', s.reach p = r at haccords ht ⊢
  cases haccords with
  | found htarget =>
    cases ht
    exact ⟨_, rfl, htarget⟩
  | dangling _ => cases ht
  | elided _ => cases ht

/-- A path that is wrong in an abbreviated snapshot is wrong in the full
one. -/
theorem Abbreviates.resolve_error (h : s'.Abbreviates s) {p : Path} {d : Dangling}
    (hd : s'.resolve p = .error d) (hreason : d.reason ≠ .elided) : s.resolve p = .error d := by
  have haccords := h.reach p
  rw [resolve_eq] at hd ⊢
  generalize s'.reach p = r', s.reach p = r at haccords hd ⊢
  cases haccords with
  | found _ => cases hd
  | dangling _ => exact hd
  | elided _ =>
    cases hd
    exact absurd rfl hreason

end Snapshot

/-! ## Shortened values -/

/-- **`v'` is `v` with complete strings and arrays shortened**: any of
them, at any depth, and each to a limit of its own. -/
inductive Value.Shortens : Value → Value → Prop
  /-- Nothing is shortened. -/
  | refl (v : Value) : Shortens v v
  /-- The values of the fields of a struct are shortened. -/
  | struct {name : String} {fs fs' : List (String × Value)} :
      fs.map Prod.fst = fs'.map Prod.fst →
      (∀ (n : Nat) f f', fs[n]? = some f → fs'[n]? = some f' → Shortens f.2 f'.2) →
      Shortens (.struct name fs) (.struct name fs')
  /-- The values of the fields of a variant are shortened. -/
  | enum {name variant : String} {fs fs' : List (String × Value)} :
      fs.map Prod.fst = fs'.map Prod.fst →
      (∀ (n : Nat) f f', fs[n]? = some f → fs'[n]? = some f' → Shortens f.2 f'.2) →
      Shortens (.enum name variant fs) (.enum name variant fs')
  /-- A complete string is shortened. -/
  | string (units : List UInt32) (limit : Nat) :
      Shortens (.string (.complete units)) (.string (.shorten units limit))
  /-- The elements that an array has are shortened, and itself it stays as
  long. -/
  | items {front front' : List Value} {last last' : Option Value} (length : Nat) :
      front.length = front'.length →
      (∀ (i : Nat) a a', front[i]? = some a → front'[i]? = some a' → Shortens a a') →
      (∀ a', last' = some a' → ∃ a, last = some a) →
      (∀ a a', last = some a → last' = some a' → Shortens a a') →
      Shortens (.array ⟨front, last, length⟩) (.array ⟨front', last', length⟩)
  /-- The elements of a complete array are shortened, and then the array. -/
  | array {items items' : List Value} (limit : Nat) :
      items.length = items'.length →
      (∀ (i : Nat) a a', items[i]? = some a → items'[i]? = some a' → Shortens a a') →
      Shortens (.array (.complete items)) (.array (.shorten items' limit))

/-- Any values of a snapshot are shortened. -/
structure Snapshot.Shortens (s s' : Snapshot) : Prop where
  frames : List.Forall₂ (FieldsRelate Value.Shortens) s.frames s'.frames
  heap : List.Forall₂ Value.Shortens s.heap s'.heap

namespace Value

theorem getElem?_of_length_eq {α β : Type} {l : List α} {l' : List β} {a' : β} {i : Nat}
    (hlength : l.length = l'.length) (h : l'[i]? = some a') : ∃ a, l[i]? = some a := by
  have hi := (List.getElem?_eq_some_iff.mp h).1
  exact ⟨_, List.getElem?_eq_getElem (hlength ▸ hi)⟩

/-- Every value abbreviates itself. -/
theorem Abbreviates.refl (v : Value) : v.Abbreviates v := by
  induction v using Value.induction with
  | struct name fields ih =>
    refine .struct rfl fun n f' f hf' hf => ?_
    obtain rfl := Option.some.inj (hf'.symm.trans hf)
    exact ih f' (List.mem_of_getElem? hf')
  | enum name variant fields ih =>
    refine .enum rfl fun n f' f hf' hf => ?_
    obtain rfl := Option.some.inj (hf'.symm.trans hf)
    exact ih f' (List.mem_of_getElem? hf')
  | string units => exact .string rfl fun _ _ h => h
  | array items hfront hlast =>
    refine .array rfl (fun i a h => ⟨a, h⟩) fun i a' a ha' ha => ?_
    obtain rfl := Option.some.inj (ha'.symm.trans ha)
    rcases Excerpt.get?_eq_some.mp ha' with h | ⟨-, -, h⟩
    · exact hfront a' (List.mem_of_getElem? h)
    · exact hlast a' h
  | _ => exact .plain rfl rfl

/-- **To shorten abbreviates.** -/
theorem Shortens.abbreviates {v v' : Value} (h : v.Shortens v') : v'.Abbreviates v := by
  induction h with
  | refl v => exact .refl v
  | struct hnames _ ih => exact .struct hnames.symm fun n f' f hf' hf => ih n f f' hf hf'
  | enum hnames _ ih => exact .enum hnames.symm fun n f' f hf' hf => ih n f f' hf hf'
  | string units limit =>
    refine .string (by simp) fun i u hu => ?_
    rw [Excerpt.get?_complete]
    exact Excerpt.get?_of_shorten hu
  | items length hlength _ hlast _ ihfront ihlast =>
    refine .array rfl (fun i a' ha' => ?_) fun i a' a ha' ha => ?_
    · rcases Excerpt.get?_eq_some.mp ha' with h | ⟨hi, hend, h⟩
      · obtain ⟨a, ha⟩ := getElem?_of_length_eq hlength h
        exact ⟨a, Excerpt.get?_eq_some.mpr (.inl ha)⟩
      · obtain ⟨a, ha⟩ := hlast a' h
        exact ⟨a, Excerpt.get?_eq_some.mpr (.inr ⟨hlength ▸ hi, hend, ha⟩)⟩
    · rcases Excerpt.get?_eq_some.mp ha' with h' | ⟨hi', -, h'⟩ <;>
        rcases Excerpt.get?_eq_some.mp ha with h | ⟨hi, -, h⟩
      · exact ihfront i a a' h h'
      · have hlt := (List.getElem?_eq_some_iff.mp h').1
        dsimp only at hlt hi
        omega
      · have hlt := (List.getElem?_eq_some_iff.mp h).1
        dsimp only at hlt hi'
        omega
      · exact ihlast a a' h h'
  | array limit hlength _ ih =>
    refine .array (by simp [hlength]) (fun i a' ha' => ?_) fun i a' a ha' ha => ?_
    · obtain ⟨a, ha⟩ := getElem?_of_length_eq hlength (Excerpt.get?_of_shorten ha')
      exact ⟨a, by rwa [Excerpt.get?_complete]⟩
    · rw [Excerpt.get?_complete] at ha
      exact ih i a a' ha (Excerpt.get?_of_shorten ha')

end Value

theorem FieldsRelate.swap {R R' : Value → Value → Prop} {fs fs' : List (String × Value)}
    (hR : ∀ v v', R v v' → R' v' v) (h : FieldsRelate R fs fs') : FieldsRelate R' fs' fs :=
  List.Forall₂.imp (fun _ _ h => ⟨h.1.symm, hR _ _ h.2⟩) (List.Forall₂.flip h)

namespace Snapshot

variable {s s' : Snapshot}

theorem Shortens.abbreviates (h : s.Shortens s') : s'.Abbreviates s where
  frames := h.frames.flip.imp fun _ _ h => FieldsRelate.swap (fun _ _ h => h.abbreviates) h
  heap := h.heap.flip.imp fun _ _ h => h.abbreviates

/-- **Elision never changes where a path leads.** The first part is for
any snapshot that abbreviates another; the second says that shortened
strings and arrays make one. -/
theorem leads_alike :
    (∀ s' s : Snapshot, s'.Abbreviates s → ∀ p : Path,
      (∀ t', s'.resolve p = .ok t' → ∃ t, s.resolve p = .ok t ∧ t'.Abbreviates t) ∧
      ∀ d, s'.resolve p = .error d → d.reason ≠ .elided → s.resolve p = .error d) ∧
    ∀ s s' : Snapshot, s.Shortens s' → s'.Abbreviates s :=
  ⟨fun _ _ h _ => ⟨fun _ ht => h.resolve_ok ht, fun _ hd hr => h.resolve_error hd hr⟩,
    fun _ _ h => h.abbreviates⟩

/-- An array of four, of which the first and the last are kept, and of the
string that is last the first and the last code unit. -/
theorem leads_alike_of_last :
    let string : List UInt32 := [119, 120, 121, 122]
    let full : Snapshot :=
      ⟨[[("xs", .list [.bool true, .uint 7, .uint 8, .string (.complete string)])]], []⟩
    let short : Snapshot :=
      ⟨[[("xs", .array (.shorten [.bool true, .uint 7, .uint 8, .string (.shorten string 1)] 1))]],
        []⟩
    let xs := Path.stack 0 "xs"
    full.Shortens short ∧
      (short.resolve ((xs.index 3).index 3) = .ok (.unit 122) ∧
        full.resolve ((xs.index 3).index 3) = .ok (.unit 122)) ∧
      (short.resolve (xs.index 4) = .error ⟨xs.index 4, .indexOutOfRange⟩ ∧
        full.resolve (xs.index 4) = .error ⟨xs.index 4, .indexOutOfRange⟩) ∧
      short.resolve (xs.index 2) = .error ⟨xs.index 2, .elided⟩ ∧
        full.resolve (xs.index 2) = .ok (.value (.uint 8)) := by
  intro string full short xs
  have hshort : full.Shortens short := by
    refine ⟨.cons (.cons ⟨rfl, .array 1 rfl fun i a a' ha ha' => ?_⟩ .nil) .nil, .nil⟩
    match i with
    | 0 | 1 | 2 =>
      obtain rfl := Option.some.inj (ha.symm.trans ha')
      exact .refl _
    | 3 =>
      cases ha
      cases ha'
      exact .string string 1
    | n + 4 => cases ha
  have habbreviates := leads_alike.2 full short hshort
  have hlead := leads_alike.1 short full habbreviates
  refine ⟨hshort, ⟨rfl, ?_⟩, ⟨rfl, ?_⟩, rfl, rfl⟩
  · obtain ⟨t, ht, hunit⟩ := (hlead ((xs.index 3).index 3)).1 _ rfl
    cases hunit
    exact ht
  · exact (hlead (xs.index 4)).2 _ rfl (by decide)

end Snapshot

end Marginalia
