import Marginalia.Trace.View
import Marginalia.Proofs.State.Number

/-!
# Trace — pointers are told apart by what is shown of them

A path is shown without escapes, and the name of a local may hold any
character, those between the parts of a path included. Still the text is
read in one way only: what follows the name has no `@`, so the last one
ends it (`append_cons_inj_of_notMem_back`); every part starts with a
character that is no digit, so a number ends where its digits do
(`number_append_inj`); and what follows its first number tells an element
from a stretch (`Part.text_append_inj`).

So a text belongs to one path (`Path.text_injective`), and so do the
views and messages it stands in (`Path.toldApart`).
-/

namespace Marginalia

/-! ## Where names and numbers end -/

section

variable {α : Type} {a : α} {xs ys zs zs' : List α}

/-- An entry is not found before itself in what has it once. -/
theorem cons_eq_append_cons_of_notMem (hzs : a ∉ zs) (h : a :: zs = xs ++ a :: zs') :
    xs = [] ∧ zs = zs' := by
  cases xs with
  | nil => exact ⟨rfl, (List.cons.inj h).2⟩
  | cons b xs =>
    obtain ⟨-, rfl⟩ := List.cons.inj h
    exact absurd (List.mem_append_right xs List.mem_cons_self) hzs

/-- What is split at the last place of an entry is split in one way. -/
theorem append_cons_inj_of_notMem_back (hzs : a ∉ zs) (hzs' : a ∉ zs')
    (h : xs ++ a :: zs = ys ++ a :: zs') : xs = ys ∧ zs = zs' := by
  rcases List.append_eq_append_iff.mp h with ⟨as, rfl, has⟩ | ⟨as, rfl, has⟩
  · obtain ⟨rfl, hsame⟩ := cons_eq_append_cons_of_notMem hzs has
    exact ⟨(List.append_nil xs).symm, hsame⟩
  · obtain ⟨rfl, hsame⟩ := cons_eq_append_cons_of_notMem hzs' has
    exact ⟨List.append_nil ys, hsame.symm⟩

end

variable {rest rest' : List Char}

/-- The digits of a number end where no digit follows. -/
theorem takeWhile_number (n : Nat) (hrest : ∀ c ∈ rest.head?, c.isDigit = false) :
    (Nat.toDigits 10 n ++ rest).takeWhile Char.isDigit = Nat.toDigits 10 n := by
  have hnone : rest.takeWhile Char.isDigit = [] := by
    cases rest with
    | nil => rfl
    | cons c rest => simp [hrest c rfl]
  rw [List.takeWhile_append_of_pos (isDigit_toDigits n), hnone, List.append_nil]

/-- So the number and what follows are told apart. -/
theorem number_append_inj {m n : Nat} (hrest : ∀ c ∈ rest.head?, c.isDigit = false)
    (hrest' : ∀ c ∈ rest'.head?, c.isDigit = false)
    (h : Nat.toDigits 10 m ++ rest = Nat.toDigits 10 n ++ rest') : m = n ∧ rest = rest' := by
  have hdigits := congrArg (List.takeWhile Char.isDigit) h
  rw [takeWhile_number m hrest, takeWhile_number n hrest'] at hdigits
  have hsame : m = n := by
    have hvalue := congrArg (Nat.ofDigitChars 10 · 0) hdigits
    rwa [Nat.ofDigitChars_ten_toDigits, Nat.ofDigitChars_ten_toDigits] at hvalue
  subst hsame
  exact ⟨rfl, List.append_cancel_left h⟩

/-! ## Parts of a path -/

theorem Part.toList_text (p : Part) : p.text.toList =
    match p with
    | .field n => '.' :: Nat.toDigits 10 n
    | .index n => '[' :: (Nat.toDigits 10 n ++ [']'])
    | .slice start stop =>
      '[' :: (Nat.toDigits 10 start ++ '.' :: '.' :: (Nat.toDigits 10 stop ++ [']'])) := by
  cases p <;> simp [Part.text, toString]

/-- The text of the parts of a path. -/
def partsText (parts : List Part) : List Char := parts.flatMap fun p => p.text.toList

@[simp] theorem partsText_nil : partsText [] = [] := rfl

@[simp] theorem partsText_cons (p : Part) (parts : List Part) :
    partsText (p :: parts) = p.text.toList ++ partsText parts := rfl

/-- No part starts with a digit. -/
theorem isDigit_head_partsText (parts : List Part) :
    ∀ c ∈ (partsText parts).head?, c.isDigit = false := by
  cases parts with
  | nil => exact fun _ h => nomatch h
  | cons p parts =>
    rw [partsText_cons, Part.toList_text]
    cases p <;> simp

/-- No part has an `@`, nor has the number before the parts. -/
theorem at_notMem_numbered (n : Nat) (parts : List Part) :
    '@' ∉ Nat.toDigits 10 n ++ partsText parts := by
  have hdigits (n : Nat) : '@' ∉ Nat.toDigits 10 n := fun h =>
    absurd (isDigit_toDigits n _ h) (by decide)
  rw [List.mem_append, not_or]
  refine ⟨hdigits n, ?_⟩
  intro h
  obtain ⟨p, -, hp⟩ := List.mem_flatMap.mp h
  rw [Part.toList_text] at hp
  cases p <;> simp [hdigits] at hp

/-- **A part and what follows are told apart**, where no digit follows. -/
theorem Part.text_append_inj {p q : Part} (hrest : ∀ c ∈ rest.head?, c.isDigit = false)
    (hrest' : ∀ c ∈ rest'.head?, c.isDigit = false)
    (h : p.text.toList ++ rest = q.text.toList ++ rest') : p = q ∧ rest = rest' := by
  have hclosed (tail : List Char) : ∀ c ∈ (']' :: tail).head?, c.isDigit = false := by simp
  have hdotted (tail : List Char) : ∀ c ∈ ('.' :: tail).head?, c.isDigit = false := by simp
  rw [toList_text, toList_text] at h
  -- a field starts unlike the others; an element and a stretch start alike
  cases p <;> cases q <;>
    simp only [List.cons_append, List.append_assoc, List.nil_append, List.cons.injEq, true_and,
      Char.reduceEq, false_and] at h
  case field.field m n =>
    obtain ⟨rfl, hsame⟩ := number_append_inj hrest hrest' h
    exact ⟨rfl, hsame⟩
  case index.index m n =>
    obtain ⟨rfl, hsame⟩ := number_append_inj (hclosed _) (hclosed _) h
    exact ⟨rfl, (List.cons.inj hsame).2⟩
  case index.slice m start stop =>
    obtain ⟨-, hsame⟩ := number_append_inj (hclosed _) (hdotted _) h
    simp at hsame
  case slice.index start stop n =>
    obtain ⟨-, hsame⟩ := number_append_inj (hdotted _) (hclosed _) h
    simp at hsame
  case slice.slice start stop start' stop' =>
    obtain ⟨rfl, hstops⟩ := number_append_inj (hdotted _) (hdotted _) h
    simp only [List.cons.injEq, true_and] at hstops
    obtain ⟨rfl, hsame⟩ := number_append_inj (hclosed _) (hclosed _) hstops
    exact ⟨rfl, (List.cons.inj hsame).2⟩

theorem partsText_injective : Function.Injective partsText := by
  intro ps
  induction ps with
  | nil =>
    intro qs h
    cases qs with
    | nil => rfl
    | cons q qs =>
      rw [partsText_cons, Part.toList_text] at h
      cases q <;> cases h
  | cons p ps ih =>
    intro qs h
    cases qs with
    | nil =>
      rw [partsText_cons, Part.toList_text] at h
      cases p <;> cases h
    | cons q qs =>
      obtain ⟨rfl, hrest⟩ :=
        Part.text_append_inj (isDigit_head_partsText ps) (isDigit_head_partsText qs) h
      rw [ih hrest]

/-! ## Paths -/

theorem Path.toList_text_stack (frame : Nat) (name : String) (parts : List Part) :
    (Path.mk (.stack frame name) parts).text.toList =
      name.toList ++ '@' :: (Nat.toDigits 10 frame ++ partsText parts) := by
  simp [Path.text, Root.text, toString, partsText, String.toList_join, List.flatMap_map]

theorem Path.toList_text_heap (index : Nat) (parts : List Part) :
    (Path.mk (.heap index) parts).text.toList =
      "heap#".toList ++ (Nat.toDigits 10 index ++ partsText parts) := by
  simp [Path.text, Root.text, toString, partsText, String.toList_join, List.flatMap_map]

/-- Where a path into the heap has its root, one into a frame has an `@`. -/
theorem Path.text_stack_ne_heap (frame index : Nat) (name : String) (parts parts' : List Part) :
    (Path.mk (.stack frame name) parts).text ≠ (Path.mk (.heap index) parts').text := by
  intro h
  have hlist := congrArg String.toList h
  rw [toList_text_stack, toList_text_heap] at hlist
  have hmem : '@' ∈ "heap#".toList ++ (Nat.toDigits 10 index ++ partsText parts') :=
    hlist ▸ List.mem_append_right _ List.mem_cons_self
  rcases List.mem_append.mp hmem with hroot | hnumbered
  · exact absurd hroot (by decide)
  · exact at_notMem_numbered index parts' hnumbered

/-- **A text belongs to one path.** -/
theorem Path.text_injective : Function.Injective Path.text := by
  rintro ⟨root, parts⟩ ⟨root', parts'⟩ h
  cases root with
  | stack frame name =>
    cases root' with
    | stack frame' name' =>
      have hlist := congrArg String.toList h
      rw [toList_text_stack, toList_text_stack] at hlist
      -- a name may have an `@` of its own, but it is not the last
      obtain ⟨hname, hnumbered⟩ := append_cons_inj_of_notMem_back
        (at_notMem_numbered frame parts) (at_notMem_numbered frame' parts') hlist
      obtain ⟨rfl, hparts⟩ := number_append_inj (isDigit_head_partsText parts)
        (isDigit_head_partsText parts') hnumbered
      rw [String.toList_inj.mp hname, partsText_injective hparts]
    | heap index' => exact absurd h (text_stack_ne_heap frame index' name parts parts')
  | heap index =>
    cases root' with
    | stack frame' name' => exact absurd h.symm (text_stack_ne_heap frame' index name' parts' parts)
    | heap index' =>
      have hlist := congrArg String.toList h
      rw [toList_text_heap, toList_text_heap] at hlist
      obtain ⟨rfl, hparts⟩ := number_append_inj (isDigit_head_partsText parts)
        (isDigit_head_partsText parts') (List.append_cancel_left hlist)
      rw [partsText_injective hparts]

/-! ## What is shown of pointers -/

theorem Reason.text_injective : Function.Injective Reason.text := by
  intro r r' h
  cases r <;> cases r' <;> simp [text] at h ⊢

theorem Reason.colon_notMem_text (r : Reason) : ':' ∉ r.text.toList := by
  cases r <;> decide

/-- A path is told apart from the reason behind it, as the last colon is
the one between them. -/
theorem Dangling.shown_inj {d d' : Dangling} {before after : List Char} (hafter : ':' ∉ after)
    (h : before ++ (d.path.text.toList ++ ':' :: ' ' :: (d.reason.text.toList ++ after)) =
      before ++ (d'.path.text.toList ++ ':' :: ' ' :: (d'.reason.text.toList ++ after))) :
    d = d' := by
  have hreason (r : Reason) : ':' ∉ ' ' :: (r.text.toList ++ after) := by
    simp [r.colon_notMem_text, hafter]
  obtain ⟨hpath, hreasons⟩ := append_cons_inj_of_notMem_back (hreason _) (hreason _)
    (List.append_cancel_left h)
  have hreasons := List.append_cancel_right (List.cons.inj hreasons).2
  obtain ⟨path, reason⟩ := d
  obtain ⟨path', reason'⟩ := d'
  obtain rfl : path = path' := Path.text_injective (String.toList_inj.mp hpath)
  obtain rfl : reason = reason' := Reason.text_injective (String.toList_inj.mp hreasons)
  rfl

theorem Dangling.toList_message (d : Dangling) : d.message.toList =
    "dangling reference ".toList ++
      (d.path.text.toList ++ ':' :: ' ' :: (d.reason.text.toList ++ [])) := by
  have hmessage : d.message =
      "dangling reference " ++ d.path.text ++ ": " ++ d.reason.text := rfl
  rw [hmessage, String.toList_append, String.toList_append, String.toList_append]
  simp

theorem View.toList_render_reference (path : Path) :
    (View.reference path).render.toList = '&' :: path.text.toList := by
  simp [render]

theorem View.toList_render_dangling (path : Path) (reason : Reason) :
    (View.dangling path reason).render.toList = "<dangling ".toList ++
      (path.text.toList ++ ':' :: ' ' :: (reason.text.toList ++ ['>'])) := by
  simp [render, toString]

/-- A pointer is shown as a reference or as one that leads nowhere. -/
theorem Value.view_pointer (s : Snapshot) (path : Path) :
    ((Value.pointer path).view s).1 = .reference path ∨
      ∃ reason, ((Value.pointer path).view s).1 = .dangling path reason := by
  rw [view]
  cases h : s.resolve path with
  | ok target => exact .inl rfl
  | error error => exact .inr ⟨error.reason, rfl⟩

/-- **Pointers that are shown alike are the same**, in whichever snapshots
they are followed. -/
theorem Value.pointer_inj_of_render {s s' : Snapshot} {p q : Path}
    (h : ((Value.pointer p).view s).1.render = ((Value.pointer q).view s').1.render) :
    p = q := by
  have hlist := congrArg String.toList h
  rcases view_pointer s p with hp | ⟨r, hp⟩ <;> rcases view_pointer s' q with hq | ⟨r', hq⟩ <;>
    rw [hp, hq] at hlist
  · rw [View.toList_render_reference, View.toList_render_reference] at hlist
    exact Path.text_injective (String.toList_inj.mp (List.cons.inj hlist).2)
  · rw [View.toList_render_reference, View.toList_render_dangling] at hlist
    simp at hlist
  · rw [View.toList_render_reference, View.toList_render_dangling] at hlist
    simp at hlist
  · rw [View.toList_render_dangling, View.toList_render_dangling] at hlist
    have hsame : Dangling.mk p r = ⟨q, r'⟩ := Dangling.shown_inj (by decide) hlist
    exact congrArg Dangling.path hsame

/-- **A path is known by what is shown of it**: by its own text, which for
a path into a frame is never that of one into the heap, and by the views
and messages that it stands in. -/
theorem Path.toldApart :
    (∀ p q : Path, p.text = q.text → p = q) ∧
      (∀ (frame index : Nat) (name : String) (parts parts' : List Part),
        (Path.mk (.stack frame name) parts).text ≠ (Path.mk (.heap index) parts').text) ∧
      (∀ (s s' : Snapshot) (p q : Path),
        ((Value.pointer p).view s).1.render = ((Value.pointer q).view s').1.render → p = q) ∧
      ∀ d d' : Dangling, d.message = d'.message → d = d' := by
  refine ⟨fun _ _ h => text_injective h, text_stack_ne_heap,
    fun _ _ _ _ h => Value.pointer_inj_of_render h, ?_⟩
  intro d d' h
  have hlist := congrArg String.toList h
  rw [Dangling.toList_message, Dangling.toList_message] at hlist
  exact Dangling.shown_inj List.not_mem_nil hlist

/-- Names that look like paths. -/
example :
    [Path.stack 1 "heap#0", (Path.stack 0 "x@1").field 0, (Path.stack 1 "x").field 0,
      Path.stack 0 "x@1.0"].map Path.text = ["heap#0@1", "x@1@0.0", "x@1.0", "x@1.0@0"] := by
  decide +kernel

end Marginalia
