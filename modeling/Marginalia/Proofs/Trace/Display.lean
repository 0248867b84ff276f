import Marginalia.Proofs.State.Included
import Marginalia.Proofs.Trace.Counting

/-!
# Trace — the display of a sequence accounts for every element

An array is shown as the elements that are there, with a marker where some
are lacking. What the marker says is not what the excerpt counts: it is a
difference between the index that was expected and the one that came, or
the end. For a proper excerpt there is one marker if something is lacking
and none otherwise, and it says what the excerpt counts
(`Excerpt.Proper.displayed`). The loop that prints the items, with
separators in front of them, comes to the same text
(`View.printSequence?_eq`).
-/

namespace Marginalia

/-! ## Printing item by item -/

namespace View

variable {items : List (Nat × View)}

/-- What stands in front of a piece: nothing, if it is the first. -/
def separator (first : Bool) : String := if first then "" else ", "

/-- A gap as it is printed with something before and after it, if there is
one in front of the index. -/
def printGap? (before after : String) (expected index : Nat) : Option String :=
  if expected < index then
    (Word.sub? index expected).map fun count => before ++ gap count ++ after
  else some ""

/-- The items of a sequence as they are printed one after the other, counted
in machine words, where the next expected index is `expected` and `first`
says that no item was printed yet. -/
def printItems? (first : Bool) (expected length : Nat) : List (Nat × View) → Option String
  | [] => printGap? (separator first) "" expected length
  | (index, item) :: items => do
    let lacking ← printGap? "" ", " expected index
    let next ← Word.add? index 1
    let others ← printItems? false next length items
    some (separator first ++ lacking ++ item.render ++ others)

/-- A sequence as it is printed. -/
def printSequence? (items : List (Nat × View)) (length : Nat) : Option String := do
  let inside ← printItems? true 0 length items
  some ("[" ++ inside ++ "]" ++ (if items.length < length then s!" (len {length})" else ""))

/-- Pieces as they are printed one after the other. -/
def printed (first : Bool) : List String → String
  | [] => ""
  | piece :: pieces => separator first ++ piece ++ printed false pieces

theorem intercalate_cons_eq_printed (piece : String) (pieces : List String) :
    String.intercalate ", " (piece :: pieces) = piece ++ printed false pieces := by
  induction pieces generalizing piece with
  | nil => rw [String.intercalate_singleton, printed, String.append_empty]
  | cons next pieces ih =>
    rw [String.intercalate_cons_cons, ih, printed]
    simp only [separator, Bool.false_eq_true, if_false, String.append_assoc]

/-- Separators in front of all pieces but the first are separators between
them. -/
theorem printed_true (pieces : List String) :
    printed true pieces = String.intercalate ", " pieces := by
  cases pieces with
  | nil => rfl
  | cons piece pieces =>
    rw [intercalate_cons_eq_printed, printed]
    simp only [separator, if_true, String.empty_append]

theorem printGap?_eq (before after : String) (expected index : Nat) :
    printGap? before after expected index =
      some (if expected < index then before ++ gap (index - expected) ++ after else "") := by
  unfold printGap?
  split
  · rename_i hlt
    rw [Word.sub?, if_pos (Nat.le_of_lt hlt), Option.map_some]
  · rfl

/-- **What is printed item by item are the pieces that are shown.** -/
theorem printItems?_eq (h : ∀ x ∈ items, x.1 + 1 < wordBound) (first : Bool)
    (expected length : Nat) :
    printItems? first expected length items =
      some (printed first (showItems expected length items)) := by
  induction items generalizing first expected with
  | nil =>
    rw [printItems?, printGap?_eq, showItems]
    split <;> rfl
  | cons x items ih =>
    obtain ⟨index, item⟩ := x
    rw [List.forall_mem_cons] at h
    obtain ⟨hindex, hitems⟩ := h
    have hnext : Word.add? index 1 = some (index + 1) := Word.add?_of_lt hindex
    rw [printItems?, printGap?_eq, hnext, showItems]
    simp only [Option.bind_eq_bind, Option.bind_some, ih hitems]
    split
    · -- the separator behind a gap is the one in front of the item
      simp only [List.cons_append, List.nil_append, printed, separator, Bool.false_eq_true,
        if_false, String.append_assoc, String.empty_append]
    · simp only [List.nil_append, printed, String.append_empty]

theorem printSequence?_eq (h : ∀ x ∈ items, x.1 + 1 < wordBound) (length : Nat) :
    printSequence? items length = some (View.sequence items length).render := by
  rw [printSequence?, printItems?_eq h, printed_true, render]
  rfl

end View

/-! ## Arrays -/

/-- Items that come in the order of their indices have no gaps between
them. -/
theorem View.showItems_zipIdx_append (f : Value → View) (items : List Value) (i length : Nat)
    (rest : List (Nat × View)) :
    showItems i length (((items.zipIdx i).map fun x => (x.2, f x.1)) ++ rest) =
      (items.map fun a => (f a).render) ++ showItems (i + items.length) length rest := by
  induction items generalizing i with
  | nil => rfl
  | cons a items ih =>
    rw [List.zipIdx_cons, List.map_cons, List.cons_append, showItems, if_neg (Nat.lt_irrefl i), ih]
    simp only [List.nil_append, List.map_cons, List.cons_append, List.length_cons]
    rw [Nat.add_right_comm, Nat.add_assoc]

/-- What a value is displayed as. -/
def Value.display (v : Value) (s : Snapshot) : String := (v.view s).1.render

namespace Excerpt

variable {e : Excerpt Value} {s : Snapshot}

/-- The texts of the elements that are there, in the order of their
indices. -/
def texts (e : Excerpt Value) (s : Snapshot) : List String :=
  e.included.map fun x => x.2.display s

/-- What is shown of the elements that are there, with their indices. -/
def shown (e : Excerpt Value) (s : Snapshot) : List (Nat × View) :=
  e.included.map fun x => (x.1, (x.2.view s).1)

theorem shown_eq (e : Excerpt Value) (s : Snapshot) :
    e.shown s = (e.front.zipIdx.map fun x => (x.2, (x.1.view s).1)) ++
      e.last.toList.map fun a => (e.length - 1, (a.view s).1) := by
  rw [shown, included, List.map_append, List.map_map, List.map_map]
  rfl

theorem view_array (e : Excerpt Value) (s : Snapshot) :
    ((Value.array e).view s).1 = .sequence (e.shown s) e.length := by
  rw [shown_eq, Value.view, Value.viewItems_eq, Value.viewLast_eq]

theorem length_shown (e : Excerpt Value) (s : Snapshot) :
    (e.shown s).length = e.includedCount := by
  rw [shown, List.length_map, length_included]

theorem texts_eq (e : Excerpt Value) (s : Snapshot) :
    e.texts s = e.front.map (·.display s) ++ e.last.toList.map (·.display s) := by
  have hmap := congrArg (List.map (·.display s)) e.map_snd_included
  rwa [List.map_map, List.map_append] at hmap

/-- **There is a marker exactly where something is lacking**, and it says
how much. -/
theorem Proper.showItems_shown (h : e.Proper) (s : Snapshot) :
    View.showItems 0 e.length (e.shown s) =
      e.front.map (·.display s) ++ ((if e.isElided then [View.gap e.elidedCount] else []) ++
        e.last.toList.map (·.display s)) := by
  rw [shown_eq, View.showItems_zipIdx_append fun a => (a.view s).1, Nat.zero_add]
  refine congrArg (_ ++ ·) ?_
  cases hlast : e.last with
  | none =>
    have hcount : e.includedCount = e.front.length := by simp [includedCount, hlast]
    simp [View.showItems, isElided, elidedCount, hcount]
  | some a =>
    have hcount : e.includedCount = e.front.length + 1 := by simp [includedCount, hlast]
    have helided := h.front_lt_of_last hlast
    -- the last element is not the one that is expected; behind it the end is
    have hexpected : e.front.length < e.length - 1 := by omega
    have hgap : e.length - 1 - e.front.length = e.length - (e.front.length + 1) := by omega
    have hend : ¬ e.length - 1 + 1 < e.length := by omega
    simp [View.showItems, isElided, elidedCount, hcount, hexpected, hgap, hend, helided,
      Value.display]

/-- **The display of an array accounts for every element.** -/
structure Displayed (e : Excerpt Value) (s : Snapshot) : Prop where
  /-- If nothing is lacking, all elements are shown and nothing else. -/
  complete : e.isElided = false →
    (Value.array e).display s = "[" ++ String.intercalate ", " (e.texts s) ++ "]"
  /-- Otherwise one marker comes after the elements, -/
  behind : e.isElided = true → e.last = none →
    (Value.array e).display s =
      "[" ++ String.intercalate ", " (e.texts s ++ [s!"…{e.elidedCount} more"]) ++ "]" ++
        s!" (len {e.length})"
  /-- or, if the last of them was kept, right in front of that one. -/
  between : ∀ a, e.last = some a → e.isElided = true ∧ ∃ others,
    e.texts s = others ++ [a.display s] ∧
      (Value.array e).display s =
        "[" ++ String.intercalate ", " (others ++ [s!"…{e.elidedCount} more", a.display s]) ++
          "]" ++ s!" (len {e.length})"
  /-- The marker never says that none is lacking, -/
  lacking : e.isElided = true ↔ 1 ≤ e.elidedCount
  /-- and with what is shown it makes up the length. -/
  total : (e.texts s).length + e.elidedCount = e.length
  /-- This is what is printed, item by item, whatever machine word the
  length is. -/
  word : e.length < wordBound →
    View.printSequence? (e.shown s) e.length = some ((Value.array e).display s)

theorem Proper.display_array (h : e.Proper) (s : Snapshot) :
    (Value.array e).display s =
      "[" ++ String.intercalate ", " (e.front.map (·.display s) ++
        ((if e.isElided then [View.gap e.elidedCount] else []) ++
          e.last.toList.map (·.display s))) ++ "]" ++
        (if e.isElided then s!" (len {e.length})" else "") := by
  rw [Value.display, view_array, View.render, h.showItems_shown, length_shown, isElided]
  simp only [decide_eq_true_eq]

theorem isElided_iff_one_le (e : Excerpt Value) : e.isElided = true ↔ 1 ≤ e.elidedCount := by
  simp only [isElided, elidedCount, decide_eq_true_eq]
  omega

/-- What keeps its last element apart lacks something. -/
theorem Proper.isElided_of_last (h : e.Proper) {a : Value} (hlast : e.last = some a) :
    e.isElided = true := by
  have hlacking := h.front_lt_of_last hlast
  simpa [isElided, includedCount, hlast] using hlacking

theorem Proper.displayed (h : e.Proper) (s : Snapshot) : e.Displayed s where
  complete hcomplete := by
    have hnone : e.last = none := by
      cases hlast : e.last with
      | none => rfl
      | some a => simp [h.isElided_of_last hlast] at hcomplete
    rw [h.display_array, texts_eq, hcomplete, hnone]
    simp
  behind helided hnone := by
    rw [h.display_array, texts_eq, helided, hnone]
    simp [View.gap]
  between a hlast := by
    have helided := h.isElided_of_last hlast
    refine ⟨helided, e.front.map (·.display s), ?_, ?_⟩
    · rw [texts_eq, hlast]
      rfl
    · rw [h.display_array, helided, hlast]
      rfl
  lacking := e.isElided_iff_one_le
  total := by
    have hle := h.1
    have hcount : (e.texts s).length = e.includedCount := by
      rw [texts, List.length_map, length_included]
    rw [hcount, elidedCount]
    omega
  word hlength := by
    rw [View.printSequence?_eq, Value.display, view_array]
    intro x hx
    obtain ⟨⟨i, a⟩, hmem, rfl⟩ := List.mem_map.mp hx
    have hi := h.lt_length (h.mem_included.mp hmem)
    dsimp only
    omega

end Excerpt

/-! ## Texts -/

/-- A code unit is shown as the character of that number, and as the
replacement character if there is none. -/
def Reads (u : UInt32) (c : Char) : Prop :=
  c.val = u ∨ c = '\ufffd' ∧ ∀ d : Char, d.val ≠ u

theorem reads_unitChar (u : UInt32) : Reads u (unitChar u) := by
  unfold unitChar
  split
  · exact .inl rfl
  · rename_i hinvalid
    exact .inr ⟨rfl, fun d hd => hinvalid (hd ▸ d.valid)⟩

namespace Excerpt

/-- The characters of the code units that are there, in the order of their
indices. -/
def chars (units : Excerpt UInt32) : List Char :=
  units.included.map fun x => unitChar x.2

/-- **The view of a text has a character for every code unit** that is
there. -/
structure Spelled (units : Excerpt UInt32) (s : Snapshot) : Prop where
  view : ((Value.string units).view s).1 =
    .text units.shownText units.elidedCount units.length
  reads : ∀ x ∈ units.included, Reads x.2 (unitChar x.2)
  /-- Without a last one there are no other characters. -/
  whole : units.last = none → units.shownText.toList = units.chars
  /-- An ellipsis comes right in front of a last one that was kept apart. -/
  ellipsis : ∀ u, units.last = some u → ∃ others,
    units.chars = others ++ [unitChar u] ∧
      units.shownText.toList = others ++ ['…', unitChar u]
  /-- Nothing else is added. -/
  count : units.shownText.length =
    units.includedCount + (if units.last.isSome then 1 else 0)
  /-- What is lacking is counted, whatever machine word the length is. -/
  word : units.Proper → units.length < wordBound →
    units.wordElidedCount? = some units.elidedCount

theorem chars_eq (units : Excerpt UInt32) :
    units.chars = units.front.map unitChar ++ units.last.toList.map unitChar := by
  have hmap := congrArg (List.map unitChar) units.map_snd_included
  rwa [List.map_map, List.map_append] at hmap

theorem spelled (units : Excerpt UInt32) (s : Snapshot) : units.Spelled s where
  view := rfl
  reads x _ := reads_unitChar x.2
  whole hnone := by
    rw [chars_eq, shownText, String.toList_ofList, hnone]
    rfl
  ellipsis u hlast := by
    refine ⟨units.front.map unitChar, ?_, ?_⟩
    · rw [chars_eq, hlast]
      rfl
    · rw [shownText, String.toList_ofList, hlast]
      rfl
  count := by
    rw [shownText, String.length_ofList, includedCount]
    cases units.last <;> simp [Nat.add_assoc]
  word := Proper.wordElidedCount?_eq

end Excerpt

namespace Value

/-- **The display of a sequence accounts for every element of it.** The
items of an array are shown in order, and where some are lacking one marker
says how many; of a text every code unit that is there is a character, and
an ellipsis stands in front of a last one that was kept apart. -/
theorem sequences_displayed :
    (∀ (e : Excerpt Value) (s : Snapshot), e.Proper → e.Displayed s) ∧
      ∀ (units : Excerpt UInt32) (s : Snapshot), units.Spelled s := by
  constructor
  · intro e s hproper
    exact hproper.displayed s
  · exact Excerpt.spelled

/-- Seven elements are lacking in front of the last one. -/
theorem sequences_displayed_of_last :
    let e : Excerpt Value := ⟨[.uint 0, .uint 1], some (.uint 9), 10⟩
    e.Proper ∧ e.Displayed ⟨[], []⟩ ∧
      (Value.array e).display ⟨[], []⟩ = "[0, 1, …7 more, 9] (len 10)" := by
  intro e
  have hproper : e.Proper := ⟨by decide, nofun⟩
  exact ⟨hproper, sequences_displayed.1 e ⟨[], []⟩ hproper, by decide⟩

end Value

end Marginalia
