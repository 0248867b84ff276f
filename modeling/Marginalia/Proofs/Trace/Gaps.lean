import Marginalia.Proofs.State.Value
import Marginalia.Proofs.Trace.Playing
import Marginalia.Trace.View

/-!
# Trace — the gaps on show are the gaps that are reported

The pointers of a step are gone through twice: once to collect those that
lead nowhere, and once to show the step. The view of a value has a view
for each of the values inside, at the same route (`Value.at?_view`), so
every pointer is shown exactly where it stands. What is returned beside
the view are the collected paths that do not resolve
(`Value.errors_view`), and these are the gaps that the view shows, from
its front to its end (`Value.gaps_view`).
-/

namespace Marginalia

/-- Why a path leads nowhere, if it does. -/
def Snapshot.dangling? (s : Snapshot) (path : Path) : Option Dangling :=
  match s.resolve path with
  | .ok _ => none
  | .error error => some error

/-- What does not resolve is reported with the whole path. -/
theorem Snapshot.path_of_resolve {s : Snapshot} {path : Path} {e : Dangling}
    (h : s.resolve path = .error e) : e.path = path := by
  unfold resolve at h
  dsimp only at h
  split at h
  · rename_i v _
    cases hfollow : (Target.value v).follow path.parts with
    | ok t =>
      rw [hfollow] at h
      cases h
    | error reason =>
      rw [hfollow] at h
      cases h
      rfl
  · cases h
    rfl

/-! ## Inside a view -/

namespace View

/-- The views right inside a view, in order. -/
def children : View → List View
  | .struct _ fields => fields.map Prod.snd
  | .enum _ _ fields => fields.map Prod.snd
  | .sequence items _ => items.map Prod.snd
  | _ => []

/-- The view at a route. -/
def at? : View → List Nat → Option View
  | u, [] => some u
  | u, k :: route => u.children[k]?.bind fun c => c.at? route

mutual

/-- A view and all views inside, each before those that are inside it. -/
def preorder : View → List View
  | .struct name fields => .struct name fields :: preorderOfFields fields
  | .enum name variant fields => .enum name variant fields :: preorderOfFields fields
  | .sequence items length => .sequence items length :: preorderOfItems items
  | u => [u]

/-- The views in a list of fields. -/
def preorderOfFields : List (String × View) → List View
  | [] => []
  | (_, u) :: fields => u.preorder ++ preorderOfFields fields

/-- The views in the items of a sequence. -/
def preorderOfItems : List (Nat × View) → List View
  | [] => []
  | (_, u) :: items => u.preorder ++ preorderOfItems items

end

/-- The pointer that the view is a gap for. -/
def dangling? : View → Option Dangling
  | .dangling path reason => some ⟨path, reason⟩
  | _ => none

/-- The gaps in a view, from its front to its end. -/
def gaps (u : View) : List Dangling := u.preorder.filterMap dangling?

theorem preorderOfFields_eq (fields : List (String × View)) :
    preorderOfFields fields = (fields.map Prod.snd).flatMap preorder := by
  induction fields with
  | nil => rfl
  | cons f fields ih => rw [preorderOfFields, ih, List.map_cons, List.flatMap_cons]

theorem preorderOfItems_eq (items : List (Nat × View)) :
    preorderOfItems items = (items.map Prod.snd).flatMap preorder := by
  induction items with
  | nil => rfl
  | cons item items ih => rw [preorderOfItems, ih, List.map_cons, List.flatMap_cons]

theorem preorder_eq (u : View) : u.preorder = u :: u.children.flatMap preorder := by
  cases u with
  | struct name fields => exact congrArg (_ :: ·) (preorderOfFields_eq fields)
  | enum name variant fields => exact congrArg (_ :: ·) (preorderOfFields_eq fields)
  | sequence items length => exact congrArg (_ :: ·) (preorderOfItems_eq items)
  | _ => rfl

theorem gaps_eq (u : View) : u.gaps = u.dangling?.toList ++ u.children.flatMap gaps := by
  have hinside : (u.children.flatMap preorder).filterMap dangling? = u.children.flatMap gaps :=
    List.filterMap_flatMap
  rw [gaps, preorder_eq, List.filterMap_cons, hinside]
  cases u.dangling? <;> rfl

end View

/-! ## The view of a value -/

namespace Value

variable {s : Snapshot} {v : Value} {path : Path} {reason : Reason}

theorem viewFields_eq (s : Snapshot) (fields : List (String × Value)) :
    viewFields s fields = (fields.map fun f => (f.1, (f.2.view s).1),
      (fields.map Prod.snd).flatMap fun a => (a.view s).2) := by
  induction fields with
  | nil => rfl
  | cons f fields ih => simp only [viewFields, ih, List.map_cons, List.flatMap_cons]

theorem viewItems_eq (s : Snapshot) (i : Nat) (items : List Value) :
    viewItems s i items = ((items.zipIdx i).map fun x => (x.2, (x.1.view s).1),
      items.flatMap fun a => (a.view s).2) := by
  induction items generalizing i with
  | nil => rfl
  | cons a items ih => simp only [viewItems, ih, List.zipIdx_cons, List.map_cons, List.flatMap_cons]

theorem viewLast_eq (s : Snapshot) (i : Nat) (last : Option Value) :
    viewLast s i last = (last.toList.map fun a => (i, (a.view s).1),
      last.toList.flatMap fun a => (a.view s).2) := by
  cases last with
  | none => rfl
  | some a => simp [viewLast]

/-- What is shown of items, without their indices. -/
theorem map_snd_viewItems (s : Snapshot) (i : Nat) (items : List Value) :
    (viewItems s i items).1.map Prod.snd = items.map fun a => (a.view s).1 := by
  rw [viewItems_eq, List.map_map]
  conv_rhs => rw [← List.zipIdx_map_fst i items, List.map_map]
  rfl

/-- **Each value inside has its view inside the view.** -/
theorem children_view (s : Snapshot) (v : Value) :
    (v.view s).1.children = v.children.map fun c => (c.view s).1 := by
  cases v with
  | struct name fields => simp [view, View.children, children, viewFields_eq]
  | enum name variant fields => simp [view, View.children, children, viewFields_eq]
  | array items =>
    obtain ⟨front, last, length⟩ := items
    rw [children_array, List.map_append, ← map_snd_viewItems s 0]
    simp [view, View.children, viewLast_eq, Function.comp_def]
  | pointer path =>
    rw [view]
    cases s.resolve path <;> rfl
  | _ => rfl

/-- **A value is shown where it stands**, and nothing else is. -/
theorem at?_view (s : Snapshot) (v : Value) (route : List Nat) :
    (v.view s).1.at? route = (v.at? route).map fun w => (w.view s).1 := by
  induction route generalizing v with
  | nil => rfl
  | cons k route ih =>
    rw [View.at?, at?, children_view, List.getElem?_map]
    cases v.children[k]? with
    | none => rfl
    | some c => exact ih c

/-- Only a pointer that resolves is shown as a reference. -/
theorem view_eq_reference_iff :
    (v.view s).1 = .reference path ↔ v = .pointer path ∧ ∃ t, s.resolve path = .ok t := by
  cases v with
  | pointer path' =>
    rw [view]
    cases hpath : s.resolve path' with
    | ok t =>
      simp only [View.reference.injEq, pointer.injEq]
      exact ⟨fun h => ⟨h, t, h ▸ hpath⟩, And.left⟩
    | error e =>
      simp only [reduceCtorEq, pointer.injEq, false_iff]
      rintro ⟨rfl, t, ht⟩
      rw [hpath] at ht
      cases ht
  | _ => simp [view]

/-- Only a pointer that does not resolve is shown as a gap. -/
theorem view_eq_dangling_iff :
    (v.view s).1 = .dangling path reason ↔
      v = .pointer path ∧ s.resolve path = .error ⟨path, reason⟩ := by
  cases v with
  | pointer path' =>
    rw [view]
    cases hpath : s.resolve path' with
    | ok t =>
      simp only [reduceCtorEq, pointer.injEq, false_iff]
      rintro ⟨rfl, herror⟩
      rw [hpath] at herror
      cases herror
    | error e =>
      obtain rfl := Snapshot.path_of_resolve hpath
      simp only [View.dangling.injEq, pointer.injEq]
      constructor
      · rintro ⟨hpath', rfl⟩
        exact ⟨hpath', hpath' ▸ hpath⟩
      · rintro ⟨rfl, herror⟩
        rw [hpath] at herror
        exact ⟨rfl, congrArg Dangling.reason (Except.error.inj herror)⟩
  | _ => simp [view]

/-- But for a pointer itself, what is reported of a value is what is
reported of the values right inside. -/
theorem errors_eq_flatMap (s : Snapshot) (h : ∀ path, v ≠ .pointer path) :
    (v.view s).2 = v.children.flatMap fun c => (c.view s).2 := by
  cases v with
  | pointer path => exact absurd rfl (h path)
  | struct name fields => simp [view, children, viewFields_eq]
  | enum name variant fields => simp [view, children, viewFields_eq]
  | array items =>
    obtain ⟨front, last, length⟩ := items
    rw [children_array]
    simp [view, viewItems_eq, viewLast_eq]
  | _ => rfl

/-- **What is reported of a value are its paths that do not resolve.** -/
theorem errors_view (s : Snapshot) (v : Value) :
    (v.view s).2 = v.pointers.filterMap s.dangling? := by
  induction v using children_induction with
  | h v ih =>
    by_cases hv : ∃ path, v = .pointer path
    · obtain ⟨path, rfl⟩ := hv
      rw [view, pointers, List.filterMap_cons, Snapshot.dangling?]
      cases s.resolve path <;> rfl
    · have hne : ∀ path, v ≠ .pointer path := fun path h => hv ⟨path, h⟩
      rw [errors_eq_flatMap s hne, pointers_eq_flatMap hne, List.filterMap_flatMap]
      exact List.flatMap_congr ih

/-- **The gaps on show are those that are reported**, in their order. -/
theorem gaps_view (s : Snapshot) (v : Value) : (v.view s).1.gaps = (v.view s).2 := by
  induction v using children_induction with
  | h v ih =>
    rw [View.gaps_eq, children_view, List.flatMap_map, List.flatMap_congr ih]
    by_cases hv : ∃ path, v = .pointer path
    · obtain ⟨path, rfl⟩ := hv
      rw [view]
      cases hpath : s.resolve path with
      | ok t => rfl
      | error e =>
        obtain rfl := Snapshot.path_of_resolve hpath
        rfl
    · have hne : ∀ path, v ≠ .pointer path := fun path h => hv ⟨path, h⟩
      have hshown : (v.view s).1.dangling? = none := by
        cases hgap : (v.view s).1 with
        | dangling path reason => exact absurd (view_eq_dangling_iff.mp hgap).1 (hne path)
        | _ => rfl
      rw [hshown, errors_eq_flatMap s hne]
      rfl

end Value

/-! ## The view of a step -/

/-- The value at a route in the one of this number: the locals are counted
frame by frame, and then the heap. -/
def Step.at? (step : Step) (k : Nat) (route : List Nat) : Option Value :=
  step.values[k]?.bind fun v => v.at? route

namespace StepView

/-- The views of the locals of each frame in order, and of the heap. -/
def values (u : StepView) : List View :=
  (u.frames.flatMap fun f => f.locals.map Prod.snd) ++ u.heap

/-- The view at a route in the one of this number. -/
def at? (u : StepView) (k : Nat) (route : List Nat) : Option View :=
  u.values[k]?.bind fun c => c.at? route

/-- The gaps on show, from the first local to the last heap cell. -/
def gaps (u : StepView) : List Dangling := u.values.flatMap View.gaps

end StepView

namespace Step

theorem viewFrames_eq (s : Snapshot) (frames : List Frame) :
    viewFrames s frames = (frames.map fun f => ⟨f.name, f.location, (viewLocals s f.locals).1⟩,
      frames.flatMap fun f => (viewLocals s f.locals).2) := by
  induction frames with
  | nil => rfl
  | cons f frames ih => simp only [viewFrames, ih, List.map_cons, List.flatMap_cons]

/-- Each value of a step has its view. -/
theorem values_view (step : Step) :
    step.view.1.values = step.values.map fun v => (v.view step.snapshot).1 := by
  have hheap : step.view.1.heap = step.heap.map fun v => (v.view step.snapshot).1 :=
    Value.map_snd_viewItems step.snapshot 0 step.heap
  have hframes : step.view.1.frames = (viewFrames step.snapshot step.frames).1 := rfl
  rw [StepView.values, hheap, hframes, viewFrames_eq]
  simp [values, viewLocals, Value.viewFields_eq, List.map_flatMap, List.flatMap_map,
    Function.comp_def]

/-- What is reported of a step is what is reported of its values. -/
theorem errors_view (step : Step) :
    step.view.2 = step.values.flatMap fun v => (v.view step.snapshot).2 := by
  have herrors : step.view.2 = (viewFrames step.snapshot step.frames).2 ++
      (Value.viewItems step.snapshot 0 step.heap).2 := rfl
  rw [herrors, viewFrames_eq, Value.viewItems_eq, values, List.flatMap_append, List.flatMap_assoc]
  simp [viewLocals, Value.viewFields_eq, List.flatMap_map, Function.comp_def]

theorem at?_view (step : Step) (k : Nat) (route : List Nat) :
    step.view.1.at? k route =
      (step.at? k route).map fun w => (w.view step.snapshot).1 := by
  rw [StepView.at?, Step.at?, values_view, List.getElem?_map]
  cases step.values[k]? with
  | none => rfl
  | some v => exact Value.at?_view step.snapshot v route

theorem gaps_view (step : Step) : step.view.1.gaps = step.view.2 := by
  rw [StepView.gaps, values_view, List.flatMap_map, errors_view]
  exact List.flatMap_congr fun v _ => Value.gaps_view step.snapshot v

/-- What is reported of a step are its paths that do not resolve. -/
theorem errors_view_eq_filterMap (step : Step) :
    step.view.2 = (step.values.flatMap Value.pointers).filterMap step.snapshot.dangling? := by
  rw [errors_view, List.filterMap_flatMap]
  exact List.flatMap_congr fun v _ => Value.errors_view step.snapshot v

end Step

namespace Trace

variable {raw : RawTrace} {n : Nat} {step : Step} {t : Trace}

/-- The pointers that lead nowhere are those of the steps, one step after
the other. -/
theorem danglingPointers_eq (t : Trace) :
    t.danglingPointers = t.steps.flatMap fun step => step.view.2.map (⟨step.index, ·⟩) := by
  refine List.flatMap_congr fun step _ => ?_
  rw [Step.errors_view_eq_filterMap, List.map_filterMap]
  refine congrFun (congrArg _ (funext fun path => ?_)) _
  rw [Snapshot.dangling?]
  cases step.snapshot.resolve path <;> rfl

/-- What is listed under the position of a step is what its view
returns. -/
theorem filter_danglingPointers
    (hordered : t.steps.Pairwise fun a b => a.index < b.index) (h : step ∈ t.steps) :
    (t.danglingPointers.filter fun d => d.step = step.index).map DanglingPointer.error =
      step.view.2 := by
  have hother (other : Step) (hne : other.index ≠ step.index) :
      (other.view.2.map (DanglingPointer.mk other.index)).filter (fun d => d.step = step.index) =
        [] := by
    simp [hne]
  have hself : (step.view.2.map (DanglingPointer.mk step.index)).filter
      (fun d => d.step = step.index) = step.view.2.map (DanglingPointer.mk step.index) := by
    simp
  -- positions ascend, so only the step itself has its own
  obtain ⟨front, back, hsplit⟩ := List.append_of_mem h
  rw [hsplit, List.pairwise_append, List.pairwise_cons] at hordered
  obtain ⟨-, ⟨hback, -⟩, hfront⟩ := hordered
  rw [danglingPointers_eq, hsplit, List.filter_flatMap, List.flatMap_append, List.flatMap_cons,
    hself, List.flatMap_eq_nil_iff.mpr fun other hmem => hother other
      (Nat.ne_of_lt (hfront other hmem step List.mem_cons_self)),
    List.flatMap_eq_nil_iff.mpr fun other hmem => hother other (Nat.ne_of_gt (hback other hmem)),
    List.nil_append, List.append_nil, List.map_map]
  exact List.map_id _

/-- **The gaps on show are the gaps that are reported.** For each kept
step, what its view returns is what is listed under its position, and it
is what the view shows as gaps, in the same order. Every other pointer
that stands in a value of the step is shown as a reference at that very
place, and resolves; and nothing else is shown as either. -/
theorem gaps_agree (raw : RawTrace) (n : Nat) (step : Step) (h : step ∈ (ofRaw raw n).steps) :
    ((ofRaw raw n).danglingPointers.filter fun d => d.step = step.index).map
        DanglingPointer.error = step.view.2 ∧
      step.view.1.gaps = step.view.2 ∧
      (∀ k route path, step.view.1.at? k route = some (.reference path) ↔
        step.at? k route = some (.pointer path) ∧ ∃ t, step.snapshot.resolve path = .ok t) ∧
      ∀ k route path reason, step.view.1.at? k route = some (.dangling path reason) ↔
        step.at? k route = some (.pointer path) ∧
          step.snapshot.resolve path = .error ⟨path, reason⟩ := by
  refine ⟨filter_danglingPointers (ordered_ofRaw raw n) h, step.gaps_view, ?_, ?_⟩
  · intro k route path
    rw [Step.at?_view, Option.map_eq_some_iff]
    simp only [Value.view_eq_reference_iff]
    exact ⟨fun ⟨w, hw, hpointer, ht⟩ => ⟨hpointer ▸ hw, ht⟩, fun ⟨hw, ht⟩ => ⟨_, hw, rfl, ht⟩⟩
  · intro k route path reason
    rw [Step.at?_view, Option.map_eq_some_iff]
    simp only [Value.view_eq_dangling_iff]
    exact ⟨fun ⟨w, hw, hpointer, ht⟩ => ⟨hpointer ▸ hw, ht⟩, fun ⟨hw, ht⟩ => ⟨_, hw, rfl, ht⟩⟩

/-- A step after one that is rejected: a local points into the heap, where
the last element of an array that lacks some holds, inside a variant, a
pointer to an element that is lacking. -/
theorem gaps_agree_of_elided :
    let gone : Path := (Path.heap 0).index 2
    let inner : Value := .enum "Option" "Some" [("0", .pointer gone)]
    let frame : Frame := ⟨"main", ⟨0, 9⟩, ⟨3, 5⟩, [⟨"r", .pointer (.heap 0)⟩]⟩
    let raw : RawTrace :=
      ⟨[⟨[], []⟩, ⟨[frame], [.array ⟨[.bool true], some inner, 7⟩]⟩], .success⟩
    let step : Step := ⟨1, ⟨3, 5⟩, [frame], [.array ⟨[.bool true], some inner, 7⟩]⟩
    step ∈ (ofRaw raw 9).steps ∧
      ((ofRaw raw 9).danglingPointers.filter fun d => d.step = 1).map DanglingPointer.error =
        [⟨gone, .elided⟩] ∧
      step.view.1.gaps = [⟨gone, .elided⟩] ∧
      step.view.1.at? 0 [] = some (.reference (.heap 0)) ∧
      step.view.1.at? 1 [1, 0] = some (.dangling gone .elided) := by
  intro gone inner frame raw step
  have hstep : step ∈ (ofRaw raw 9).steps := List.mem_singleton.mpr rfl
  have herrors : step.view.2 = [⟨gone, .elided⟩] := rfl
  obtain ⟨hlisted, hgaps, hreference, hdangling⟩ := gaps_agree raw 9 step hstep
  exact ⟨hstep, hlisted.trans herrors, hgaps.trans herrors,
    (hreference 0 [] _).mpr ⟨rfl, _, rfl⟩, (hdangling 1 [1, 0] _ _).mpr ⟨rfl, rfl⟩⟩

end Trace

end Marginalia
