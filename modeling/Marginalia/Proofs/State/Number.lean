import Marginalia.State.Codec
import Marginalia.Proofs.Json.Decoder
import Mathlib.Data.List.TakeWhile

/-!
# State — numbers are read back

A whole number of any width is read back from its decimal string
(`Json.Decoder.reads_wide`). A double that is no number is read back from
its name; of a finite one it is taken that its text alone is read back
(`Binary64.ReadsBack`), and then so it is inside a message
(`Json.Decoder.reads_float`).
-/

namespace Marginalia

variable {n : Nat} {c : Char} {cs : List Char}

/-! ## Whole numbers -/

theorem Text.trim_eq_self (h : ∀ c ∈ cs, Text.isBlank c = false) : Text.trim cs = cs := by
  have hdrop {ds : List Char} (hds : ∀ c ∈ ds, Text.isBlank c = false) :
      ds.dropWhile Text.isBlank = ds :=
    List.dropWhile_eq_self_iff.mpr fun hpos => by simp [hds _ (List.getElem_mem hpos)]
  have hreverse : ∀ c ∈ cs.reverse, Text.isBlank c = false := by
    simpa using h
  rw [Text.trim, hdrop h, hdrop hreverse, List.reverse_reverse]

theorem Text.isBlank_of_isDigit (h : c.isDigit = true) : Text.isBlank c = false := by
  obtain ⟨hlow, hhigh⟩ := Char.isDigit_iff_toNat.mp h
  simp only [Char.reduceToNat] at hlow hhigh
  simp [Text.isBlank]
  omega

theorem isDigit_toDigits (n : Nat) : ∀ c ∈ Nat.toDigits 10 n, c.isDigit = true :=
  fun _ hc => Nat.isDigit_of_mem_toDigits (by decide) (by decide) hc

theorem readDigits?_toDigits (n : Nat) : readDigits? (Nat.toDigits 10 n) = some n := by
  have hdigits := isDigit_toDigits n
  have hall : (Nat.toDigits 10 n).all (fun c => c.isDigit || c = '_') = true := by
    rw [List.all_eq_true]
    intro c hc
    rw [hdigits c hc, Bool.true_or]
  have hfilter : (Nat.toDigits 10 n).filter (· ≠ '_') = Nat.toDigits 10 n := by
    rw [List.filter_eq_self]
    rintro c hc
    simp only [decide_eq_true_eq]
    rintro rfl
    exact absurd (hdigits '_' hc) (by decide)
  have hvalue : Nat.ofDigitChars 10 (Nat.toDigits 10 n) 0 = n := Nat.ofDigitChars_ten_toDigits
  unfold readDigits?
  split
  · rename_i c ds heq
    have hc : c.isDigit = true := hdigits c (heq ▸ List.mem_cons_self)
    rw [hall, hc, hfilter, hvalue]
    rfl
  · rename_i heq
    exact absurd heq Nat.toDigits_ne_nil

theorem readWhole?_toDigits (n : Nat) : readWhole? (Nat.toDigits 10 n) = some (n : Int) := by
  have hdigits := isDigit_toDigits n
  have hread := readDigits?_toDigits n
  unfold readWhole?
  split
  · rename_i ds heq
    exact absurd (hdigits '-' (heq ▸ List.mem_cons_self)) (by decide)
  · rename_i ds heq
    exact absurd (hdigits '+' (heq ▸ List.mem_cons_self)) (by decide)
  · rw [hread]
    rfl

/-- A whole number is written with a sign where it is negative. -/
theorem toList_toString (k : Int) : (toString k).toList =
    if k < 0 then '-' :: Nat.toDigits 10 k.natAbs else Nat.toDigits 10 k.natAbs := by
  rw [Int.toString_eq_repr]
  cases k with
  | ofNat n =>
    have hsign : ¬Int.ofNat n < 0 := Int.not_lt.mpr (Int.natCast_nonneg n)
    rw [if_neg hsign]
    exact Nat.toList_repr
  | negSucc n =>
    rw [if_pos (by omega), Int.repr_eq_if, if_neg (by omega), String.toList_append,
      Nat.toList_repr]
    rfl

theorem readWhole?_toString (n : Int) :
    readWhole? (Text.trim (toString n).toList) = some n := by
  have hblank (n : Nat) : ∀ c ∈ Nat.toDigits 10 n, Text.isBlank c = false := fun c hc =>
    Text.isBlank_of_isDigit (isDigit_toDigits n c hc)
  rw [toList_toString]
  split
  · rename_i hnegative
    rw [Text.trim_eq_self (List.forall_mem_cons.mpr ⟨rfl, hblank _⟩), readWhole?,
      readDigits?_toDigits]
    show some (-(n.natAbs : Int)) = some n
    exact congrArg some (by omega)
  · rename_i hnegative
    rw [Text.trim_eq_self (hblank _), readWhole?_toDigits, Option.some.injEq]
    omega

namespace Json.Decoder

variable {m : Nat}

/-- **A whole number of any width is read back.** -/
theorem reads_wide (n : Int) : Reads m wide (.string (toString n)) n := by
  refine .of_flat trivial rfl fun p => ?_
  simp only [wide, node, readWhole?_toString]

theorem reads_wideNat (n : Nat) : Reads m wideNat (.string (toString n)) n := by
  have h := (reads_wide (m := m) (n : Int))
  refine Reads.check (b := n) h ?_
  simp

end Json.Decoder

/-! ## Doubles -/

/-- **The text of a double is read back** as the double. -/
def Binary64.ReadsBack (x : Binary64) : Prop :=
  Json.decodeText Json.Decoder.float x.toJson.text = .ok x

instance (x : Binary64) : Decidable x.ReadsBack :=
  inferInstanceAs (Decidable (_ = _))

namespace Json.Decoder

variable {m : Nat} {negative : Bool} {rank : Fin Binary64.topRank}

/-- Only numbers are finite. -/
theorem eq_number_of_float {p : Place} {root : Node}
    (h : float p root = .ok (.finite negative rank)) : ∃ num, root = .number num := by
  unfold float at h
  split at h
  · rename_i num
    exact ⟨num, rfl⟩
  · repeat' split at h
    all_goals cases h
  · cases h

/-- A finite double whose text is read back is one number there. -/
theorem tokens_of_readsBack (h : (Binary64.finite negative rank).ReadsBack) :
    ∃ num, tokens ((Number.finiteText Number.messageStyle negative rank).map some) =
        [.number num] ∧
      ∀ p, float p (.number num) = .ok (.finite negative rank) := by
  have htext : Text.glyphsOfText (Binary64.finite negative rank).toJson.text =
      (Number.finiteText Number.messageStyle negative rank).map some := by
    simp [Text.glyphsOfText, Binary64.toJson, Json.text, Json.write]
  obtain ⟨hroot, hended⟩ := decode_eq_ok h
  rw [htext] at hroot hended
  obtain ⟨num, hnum⟩ := eq_number_of_float hroot
  refine ⟨num, eq_number_of_read (Prod.ext hnum (List.isEmpty_iff.mp hended)), fun p => ?_⟩
  rw [hnum] at hroot
  exact hroot

/-- **A double is read back** inside a message if its text alone is. -/
theorem reads_float {x : Binary64} (h : ∀ negative rank, x = .finite negative rank → x.ReadsBack) :
    Reads m float x.toJson x := by
  cases x with
  | finite negative rank =>
    obtain ⟨num, htokens, hnum⟩ := tokens_of_readsBack (h negative rank rfl)
    refine .of_flat ⟨num, htokens⟩ rfl fun p => ?_
    rw [Binary64.toJson, node, htokens]
    exact hnum p
  | infinite negative => cases negative <;> exact .of_flat trivial rfl fun _ => rfl
  | nan => exact .of_flat trivial rfl fun _ => rfl

end Json.Decoder

end Marginalia
