import Marginalia.Proofs.State.Window
import Marginalia.Proofs.Trace.Gaps

/-!
# Trace — what is counted of a sequence

How many elements are lacking is a difference, and what is shown of a
sequence takes more of them: between one index and the next, and from the
last index to the end. Counted in machine words, none of them is taken of
the larger number and no sum is too large, if the lengths are machine words
and the excerpts are proper (`Value.Proper.countable`).
-/

namespace Marginalia

/-! ## Elements that are lacking -/

namespace Excerpt

variable {α : Type} {e : Excerpt α}

/-- `includedCount` as it is counted in machine words. -/
def wordIncludedCount? (e : Excerpt α) : Option Nat :=
  Word.add? e.front.length e.last.toList.length

/-- `elidedCount` as it is counted in machine words. -/
def wordElidedCount? (e : Excerpt α) : Option Nat := do
  let included ← e.wordIncludedCount?
  Word.sub? e.length included

theorem Proper.wordElidedCount?_eq (h : e.Proper) (hlength : e.length < wordBound) :
    e.wordElidedCount? = some e.elidedCount := by
  have hle : e.front.length + e.last.toList.length ≤ e.length := h.1
  have hincluded : e.wordIncludedCount? = some e.includedCount :=
    Word.add?_of_lt (Nat.lt_of_le_of_lt hle hlength)
  rw [wordElidedCount?, hincluded]
  exact if_pos h.1

end Excerpt

/-! ## Views as text -/

namespace View

variable {u : View} {items : List (Nat × View)} {fields : List (String × View)} {length : Nat}

/-- The gap before an index, counted in machine words, where the next
expected index is `expected`. -/
def wordGap? (expected index : Nat) : Option (List String) :=
  if expected < index then (Word.sub? index expected).map fun count => [gap count] else some []

mutual

/-- `render` as it is counted in machine words. -/
def wordRender? : View → Option String
  | .struct name fields =>
    (wordShowFields? fields).map fun shown =>
      name ++ " \x7b " ++ String.intercalate ", " shown ++ " \x7d"
  | .enum name variant [] => some (name ++ "::" ++ variant)
  | .enum name variant fields =>
    (wordShowFields? fields).map fun shown =>
      name ++ "::" ++ variant ++ "(" ++ String.intercalate ", " shown ++ ")"
  | .sequence items length =>
    (wordShowItems? 0 length items).map fun shown =>
      "[" ++ String.intercalate ", " shown ++ "]" ++
        (if items.length < length then s!" (len {length})" else "")
  | u => some u.render

/-- `showFields` as it is counted in machine words. -/
def wordShowFields? : List (String × View) → Option (List String)
  | [] => some []
  | (name, value) :: fields => do
    let shown ← value.wordRender?
    let others ← wordShowFields? fields
    some ((name ++ ": " ++ shown) :: others)

/-- `showItems` as it is counted in machine words. -/
def wordShowItems? (expected length : Nat) : List (Nat × View) → Option (List String)
  | [] => wordGap? expected length
  | (index, item) :: items => do
    let lacking ← wordGap? expected index
    let shown ← item.wordRender?
    let next ← Word.add? index 1
    let others ← wordShowItems? next length items
    some (lacking ++ shown :: others)

end

/-- No gap is counted where none is. -/
theorem wordGap?_eq (expected index : Nat) :
    wordGap? expected index = some (if expected < index then [gap (index - expected)] else []) := by
  unfold wordGap?
  split
  · rename_i hlt
    rw [Word.sub?, if_pos (Nat.le_of_lt hlt)]
    rfl
  · rfl

theorem wordShowFields?_eq (h : ∀ f ∈ fields, f.2.wordRender? = some f.2.render) :
    wordShowFields? fields = some (showFields fields) := by
  induction fields with
  | nil => rfl
  | cons f fields ih =>
    obtain ⟨name, value⟩ := f
    rw [List.forall_mem_cons] at h
    rw [wordShowFields?, h.1, ih h.2]
    rfl

theorem wordShowItems?_eq (h : ∀ x ∈ items, x.1 + 1 < wordBound ∧ x.2.wordRender? = some x.2.render)
    (expected length : Nat) :
    wordShowItems? expected length items = some (showItems expected length items) := by
  -- the differences are only taken where they are gaps, so that nothing need
  -- be known of the order of the indices
  induction items generalizing expected with
  | nil => exact wordGap?_eq expected length
  | cons x items ih =>
    obtain ⟨index, item⟩ := x
    rw [List.forall_mem_cons] at h
    obtain ⟨⟨hindex, hitem⟩, hitems⟩ := h
    rw [wordShowItems?, wordGap?_eq, hitem, Word.add?_of_lt hindex]
    simp only [Option.bind_eq_bind, Option.bind_some, ih hitems, showItems]

/-- A view is shown if the views inside are, and no index of its own is the
largest machine word. -/
theorem wordRender?_eq_of_children (h : ∀ c ∈ u.children, c.wordRender? = some c.render)
    (hindex : ∀ items length, u = .sequence items length → ∀ x ∈ items, x.1 + 1 < wordBound) :
    u.wordRender? = some u.render := by
  cases u with
  | struct name fields =>
    have hfields := wordShowFields?_eq (List.forall_mem_map.mp h)
    rw [wordRender?, hfields, render]
    rfl
  | enum name variant fields =>
    cases fields with
    | nil => rfl
    | cons f fields =>
      have hfields := wordShowFields?_eq (List.forall_mem_map.mp h)
      rw [wordRender?, hfields, render]
      · rfl
      all_goals exact nofun
  | sequence items length =>
    have hitems : ∀ x ∈ items, x.1 + 1 < wordBound ∧ x.2.wordRender? = some x.2.render :=
      fun x hx => ⟨hindex items length rfl x hx, h x.2 (List.mem_map_of_mem hx)⟩
    rw [wordRender?, wordShowItems?_eq hitems, render]
    rfl
  | _ => rfl

end View

/-! ## Values -/

namespace Value

variable {v : Value} {s : Snapshot}

/-- **Every excerpt in the value is proper.** -/
structure Proper (v : Value) : Prop where
  strings : ∀ units, v.Holds (.string units) → units.Proper
  arrays : ∀ items, v.Holds (.array items) → items.Proper

/-- **All that is counted of the value fits machine words**: the elements
that its excerpts lack, and the gaps that are shown, whatever its pointers
are resolved in. -/
structure Countable (v : Value) : Prop where
  strings : ∀ units, v.Holds (.string units) → units.wordElidedCount? = some units.elidedCount
  arrays : ∀ items, v.Holds (.array items) → items.wordElidedCount? = some items.elidedCount
  shown : ∀ s, (v.view s).1.wordRender? = some (v.view s).1.render

theorem Proper.child (h : v.Proper) {c : Value} (hc : c ∈ v.children) : c.Proper where
  strings units hunits := h.strings units (holds_iff.mpr (.inr ⟨c, hc, hunits⟩))
  arrays items hitems := h.arrays items (holds_iff.mpr (.inr ⟨c, hc, hitems⟩))

/-- Every index that is shown is that of an element. -/
theorem index_lt_of_view (h : v.Proper) {items : List (Nat × View)} {length : Nat}
    (hview : (v.view s).1 = .sequence items length) :
    v.length? = some length ∧ ∀ x ∈ items, x.1 < length := by
  cases v with
  | array e =>
    obtain ⟨front, last, n⟩ := e
    have hle : front.length + last.toList.length ≤ n :=
      (h.arrays ⟨front, last, n⟩ (holds_iff.mpr (.inl rfl))).1
    rw [view, viewItems_eq, viewLast_eq] at hview
    cases hview
    refine ⟨rfl, List.forall_mem_append.mpr ⟨List.forall_mem_map.mpr ?_, ?_⟩⟩
    · rintro ⟨a, i⟩ hmem
      have hi := List.snd_lt_of_mem_zipIdx hmem
      dsimp only at hi ⊢
      omega
    · cases last with
      | none => exact List.forall_mem_nil _
      | some a =>
        refine List.forall_mem_singleton.mpr ?_
        rw [Option.toList_some, List.length_singleton] at hle
        dsimp only
        omega
  | pointer path =>
    rw [view] at hview
    split at hview <;> cases hview
  | _ => cases hview

theorem wordRender?_view (h : v.Proper) (hsized : v.Sized) (s : Snapshot) :
    (v.view s).1.wordRender? = some (v.view s).1.render := by
  induction v using children_induction with
  | h v ih =>
    refine View.wordRender?_eq_of_children ?_ ?_
    · rw [children_view]
      exact List.forall_mem_map.mpr fun c hc => ih c hc (h.child hc) (hsized.child hc)
    · intro items length hview x hx
      obtain ⟨hlength, hindex⟩ := index_lt_of_view h hview
      have := hindex x hx
      have := hsized.length_lt hlength
      omega

/-- **What is proper and has lengths that are machine words** can be
counted in them. -/
theorem Proper.countable (h : v.Proper) (hsized : v.Sized) : v.Countable where
  strings units hunits := (h.strings units hunits).wordElidedCount?_eq (hsized _ _ hunits rfl)
  arrays items hitems := (h.arrays items hitems).wordElidedCount?_eq (hsized _ _ hitems rfl)
  shown s := wordRender?_view h hsized s

end Value

end Marginalia
