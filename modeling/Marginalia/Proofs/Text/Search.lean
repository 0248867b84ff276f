import Mathlib.Data.List.Basic

/-!
# Text — searching a list in order

A search of an ascending list tells where an entry stands, or else where
it would have to be put (`Search.Sound`). The search by halving keeps a
stretch of the list outside of which the entry need not be looked for
(`Search.Left`): one half of it is dropped at each turn, until one place
is left.
-/

namespace Marginalia

/-- The entries of an ascending list are in the order of their places. -/
theorem lt_iff_of_ascending {xs : List Nat} {i j a b : Nat} (h : xs.Pairwise (· < ·))
    (hi : xs[i]? = some a) (hj : xs[j]? = some b) : a < b ↔ i < j := by
  obtain ⟨hilt, rfl⟩ := List.getElem?_eq_some_iff.mp hi
  obtain ⟨hjlt, rfl⟩ := List.getElem?_eq_some_iff.mp hj
  have hordered := List.pairwise_iff_getElem.mp h
  rcases Nat.lt_trichotomy i j with hlt | rfl | hgt
  · exact iff_of_true (hordered i j hilt hjlt hlt) hlt
  · exact iff_of_false (Nat.lt_irrefl _) (Nat.lt_irrefl i)
  · have := hordered j i hjlt hilt hgt
    exact iff_of_false (by omega) (by omega)

/-- Where an entry stands in a list, or else where it would have to be
put. -/
abbrev Search := List Nat → Nat → Except Nat Nat

namespace Search

variable {xs : List Nat} {x y base size i j : Nat}

/-- **What a search of an ascending list tells.** -/
structure Sound (search : Search) : Prop where
  found : ∀ xs x i, search xs x = .ok i → xs[i]? = some x
  /-- An entry that is not found belongs behind all that are smaller. -/
  missing : ∀ xs x i, xs.Pairwise (· < ·) → search xs x = .error i →
    i ≤ xs.length ∧ ∀ j y, xs[j]? = some y → y ≠ x ∧ (y < x ↔ j < i)

/-- The last of `size` entries from `base` on that is not too large, or
the first if all of them are. -/
def halve (xs : List Nat) (x base size : Nat) : Nat :=
  if size ≤ 1 then base
  else
    let middle := base + size / 2
    match xs[middle]? with
    | some y => halve xs x (if x < y then base else middle) (size - size / 2)
    | none => base
termination_by size
decreasing_by omega

/-- **The search by halving.** -/
def halving : Search := fun xs x =>
  let i := halve xs x 0 xs.length
  match xs[i]? with
  | some y => if y = x then .ok i else .error (if y < x then i + 1 else i)
  | none => .error 0

/-- **What is known of the stretch that is left**: all behind it is too
large, and it starts with an entry that is not, or with the first. -/
structure Left (xs : List Nat) (x base size : Nat) : Prop where
  pos : 0 < size
  inside : base + size ≤ xs.length
  above : ∀ j y, xs[j]? = some y → base + size ≤ j → x < y
  below : ∀ y, xs[base]? = some y → base = 0 ∨ y ≤ x

theorem Left.halve (hxs : xs.Pairwise (· < ·)) (h : Left xs x base size) :
    Left xs x (halve xs x base size) 1 := by
  fun_induction Search.halve xs x base size with
  | case1 base size hsize =>
    have hone : size = 1 := Nat.le_antisymm hsize h.pos
    exact hone ▸ h
  | case2 base size hsize middle y hmiddle ih =>
    refine ih ?_
    have hinside := h.inside
    split
    · -- the middle is too large, and so is all behind it
      rename_i hlarge
      refine ⟨by omega, by omega, ?_, h.below⟩
      intro j z hj hle
      have hmj : middle ≤ j := by omega
      rcases Nat.eq_or_lt_of_le hmj with rfl | hlt
      · rw [hmiddle] at hj
        cases hj
        exact hlarge
      · have := (lt_iff_of_ascending hxs hmiddle hj).mpr hlt
        omega
    · rename_i hsmall
      refine ⟨by omega, by omega, fun j z hj hle => h.above j z hj (by omega), ?_⟩
      intro z hz
      rw [hmiddle] at hz
      cases hz
      exact .inr (by omega)
  | case3 base size hsize middle hnone =>
    have hinside := h.inside
    have := List.getElem?_eq_none_iff.mp hnone
    omega

/-- The place that is left decides where an entry belongs. -/
theorem Left.lt_iff (hxs : xs.Pairwise (· < ·)) (h : Left xs x i 1) (hi : xs[i]? = some y)
    {z : Nat} (hj : xs[j]? = some z) : z < x ↔ j < if y < x then i + 1 else i := by
  have hbefore := lt_iff_of_ascending hxs hj hi
  have hbehind := h.above j z hj
  have hbelow := h.below y hi
  split
  · constructor
    · intro hz
      by_contra hle
      have := hbehind (by omega)
      omega
    · intro hle
      rcases Nat.eq_or_lt_of_le (Nat.le_of_lt_succ hle) with rfl | hlt
      · rw [hj] at hi
        cases hi
        assumption
      · have := hbefore.mpr hlt
        omega
  · constructor
    · intro hz
      rcases Nat.lt_trichotomy j i with hlt | rfl | hgt
      · exact hlt
      · rw [hj] at hi
        cases hi
        omega
      · have := hbehind hgt
        omega
    · intro hlt
      have := hbefore.mpr hlt
      omega

/-- **The search by halving is sound.** -/
theorem sound_halving : Sound halving where
  found xs x i h := by
    simp only [halving] at h
    split at h
    · rename_i y hy
      split at h
      · rename_i hsame
        cases h
        rw [hy, hsame]
      · cases h
    · cases h
  missing xs x i hxs h := by
    rcases Nat.eq_zero_or_pos xs.length with hempty | hpos
    · obtain rfl := List.length_eq_zero_iff.mp hempty
      rw [halving, halve] at h
      cases h
      exact ⟨Nat.le_refl 0, fun j y hj => by simp at hj⟩
    have hstart : Left xs x 0 xs.length := by
      refine ⟨hpos, by omega, ?_, fun _ _ => .inl rfl⟩
      intro j y hj hle
      have := (List.getElem?_eq_some_iff.mp hj).1
      omega
    have hleft := hstart.halve hxs
    have hinside := hleft.inside
    have hy := List.getElem?_eq_getElem (l := xs) (i := Search.halve xs x 0 xs.length) (by omega)
    simp only [halving, hy] at h
    split at h
    · cases h
    rename_i hne
    cases h
    refine ⟨?_, ?_⟩
    · split <;> omega
    · intro j z hj
      refine ⟨?_, hleft.lt_iff hxs hy hj⟩
      -- an entry that is the one looked for would be the one that is left
      rintro rfl
      rcases Nat.lt_trichotomy j (Search.halve xs z 0 xs.length) with hlt | heq | hgt
      · have hbefore := (lt_iff_of_ascending hxs hj hy).mpr hlt
        have hbelow := hleft.below _ hy
        omega
      · rw [heq, hy] at hj
        exact hne (Option.some.inj hj)
      · exact Nat.lt_irrefl z (hleft.above j z hj hgt)

end Search

end Marginalia
