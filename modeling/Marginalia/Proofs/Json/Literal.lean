import Marginalia.Proofs.Json.Spans
import Mathlib.Data.List.TakeWhile

/-!
# Json — whole numbers as literals

A literal is digits without a zero before them, after a minus or none. As
a whole number it is read only if it is one of 64 bits, and minus zero is
not (`Literal`). A text that is one number is read as a whole number
exactly if it is such a literal between white space
(`Json.tokens_literal`, `Json.exists_literal`); all other numbers have a
fraction or an exponent, or are too wide.
-/

namespace Marginalia

/-- The digits of a whole number, as a message writes them. -/
structure Digits (ds : List Char) : Prop where
  nonempty : ds ≠ []
  digit : ∀ c ∈ ds, c.isDigit = true
  /-- Only zero starts with a zero. -/
  zero : ds.head? = some '0' → ds = ['0']

/-- **A whole number written as a literal**, of 64 bits with or without a
sign. -/
inductive Literal : List Char → Int → Prop
  | bare {ds : List Char} :
      Digits ds → Nat.ofDigitChars 10 ds 0 < wordBound →
      Literal ds (Nat.ofDigitChars 10 ds 0 : Nat)
  /-- There is no minus zero among them. -/
  | minus {ds : List Char} :
      Digits ds → 0 < Nat.ofDigitChars 10 ds 0 → Nat.ofDigitChars 10 ds 0 ≤ wordBound / 2 →
      Literal ('-' :: ds) (-(Nat.ofDigitChars 10 ds 0 : Nat))

namespace Json

open Text (Glyph)

variable {cs ds rest : List Char} {negative : Bool} {num : Numeral} {r : List Glyph} {k : Int}

/-! ## Digits -/

theorem scanDigits_eq (cs : List Char) :
    scanDigits (cs.map some) =
      (cs.takeWhile Char.isDigit, (cs.dropWhile Char.isDigit).map some) := by
  induction cs with
  | nil => rfl
  | cons c cs ih =>
    simp only [List.map_cons, scanDigits, ih, List.takeWhile_cons, List.dropWhile_cons]
    split <;> rfl

/-- The digits of a literal go on as long as there are any. -/
theorem scanWhole?_append (hds : Digits ds) (hrest : ∀ c ∈ rest.head?, c.isDigit = false) :
    scanWhole? ((ds ++ rest).map some) = some (ds, rest.map some) := by
  have htake : (ds ++ rest).takeWhile Char.isDigit = ds := by
    rw [List.takeWhile_append_of_pos hds.digit]
    cases rest with
    | nil => simp
    | cons c rest => simp [hrest c rfl]
  have hdrop : (ds ++ rest).dropWhile Char.isDigit = rest := by
    rw [List.dropWhile_append_of_pos hds.digit]
    cases rest with
    | nil => rfl
    | cons c rest => simp [hrest c rfl]
  have hone : ¬ (ds.head? = some '0' ∧ 1 < ds.length) := by
    rintro ⟨hhead, hlength⟩
    rw [hds.zero hhead] at hlength
    exact absurd hlength (by decide)
  rw [scanWhole?_eq, scanDigits1?_eq, scanDigits_eq, htake, hdrop, if_neg hds.nonempty,
    Option.bind_some]
  exact if_neg hone

theorem exists_of_scanWhole? (h : scanWhole? (cs.map some) = some (ds, r)) :
    ∃ rest, cs = ds ++ rest ∧ Digits ds ∧ r = rest.map some := by
  rw [scanWhole?_eq] at h
  obtain ⟨⟨found, r'⟩, hfound, h⟩ := Option.bind_eq_some_iff.mp h
  rw [scanDigits1?_eq, scanDigits_eq] at hfound
  dsimp only at h hfound
  split at hfound
  · cases hfound
  · rename_i hne
    cases hfound
    split at h
    · cases h
    · rename_i hone
      cases h
      refine ⟨cs.dropWhile Char.isDigit, List.takeWhile_append_dropWhile.symm,
        ⟨hne, fun c hc => List.mem_takeWhile_imp hc, fun hzero => ?_⟩, rfl⟩
      -- a zero at the front is alone
      obtain ⟨ds, hds⟩ := List.head?_eq_some_iff.mp hzero
      rw [hds] at hone ⊢
      have hlength : ¬ 1 < ('0' :: ds).length := fun hlong => hone ⟨rfl, hlong⟩
      have hnil : ds = [] := List.length_eq_zero_iff.mp (by simpa using hlength)
      rw [hnil]

/-! ## Plain numbers -/

/-- What can follow the digits of a plain number. -/
def EndsPlain (rest : List Char) : Prop :=
  ∀ c ∈ rest.head?, c.isDigit = false ∧ c ≠ '.' ∧ c ≠ 'e' ∧ c ≠ 'E'

/-- **Digits make a plain number.** -/
theorem scanNumber?_plain (hds : Digits ds) (hrest : EndsPlain rest) (negative : Bool) :
    scanNumber? negative ((ds ++ rest).map some) =
      some (⟨negative, Nat.ofDigitChars 10 ds 0, 0, true⟩, rest.map some) := by
  have hne (c : Char) (hc : ∀ d ∈ rest.head?, d ≠ c) (r : List Glyph) :
      rest.map some ≠ some c :: r := by
    cases rest with
    | nil => simp
    | cons d rest =>
      have hd := hc d rfl
      simp [hd]
  have hfraction : scanFraction? (rest.map some) = some ([], rest.map some) :=
    scanFraction?_of_ne (hne '.' fun d hd => (hrest d hd).2.1)
  have hexponent : scanExponent? (rest.map some) = some (none, rest.map some) :=
    scanExponent?_of_ne fun r => ⟨hne 'e' (fun d hd => (hrest d hd).2.2.1) r,
      hne 'E' (fun d hd => (hrest d hd).2.2.2) r⟩
  have hwhole := scanWhole?_append hds fun c hc => (hrest c hc).1
  simp only [scanNumber?, hwhole, hfraction, hexponent, Option.bind_eq_bind, Option.bind_some]
  simp

/-- Nothing is taken for a fraction where there is none, -/
theorem eq_of_scanFraction?_nil {text : List Glyph} (h : scanFraction? text = some ([], r)) :
    r = text := by
  unfold scanFraction? at h
  split at h
  · rw [scanDigits1?_eq] at h
    split at h
    · cases h
    · rename_i hne
      rw [Option.some.inj h] at hne
      exact absurd rfl hne
  · cases h
    rfl

/-- nor for an exponent. -/
theorem eq_of_scanExponent?_none {text : List Glyph} (h : scanExponent? text = some (none, r)) :
    r = text := by
  unfold scanExponent? at h
  split at h
  · obtain ⟨_, _, heq⟩ := Option.map_eq_some_iff.mp h
    cases heq
  · obtain ⟨_, _, heq⟩ := Option.map_eq_some_iff.mp h
    cases heq
  · cases h
    rfl

/-- **A plain number is made of digits.** -/
theorem exists_of_scanNumber? (h : scanNumber? negative (cs.map some) = some (num, r))
    (hplain : num.plain = true) :
    ∃ ds rest, cs = ds ++ rest ∧ Digits ds ∧
      num = ⟨negative, Nat.ofDigitChars 10 ds 0, 0, true⟩ ∧ r = rest.map some := by
  obtain ⟨⟨ds, r₁⟩, hwhole, h⟩ := Option.bind_eq_some_iff.mp h
  obtain ⟨⟨fraction, r₂⟩, hfraction, h⟩ := Option.bind_eq_some_iff.mp h
  obtain ⟨⟨exponent, r₃⟩, hexponent, h⟩ := Option.bind_eq_some_iff.mp h
  obtain ⟨rest, hcs, hds, hr₁⟩ := exists_of_scanWhole? hwhole
  simp only [Option.pure_def, Option.some.injEq, Prod.mk.injEq] at h
  obtain ⟨rfl, rfl⟩ := h
  simp only [Bool.and_eq_true, List.isEmpty_iff, Option.isNone_iff_eq_none] at hplain
  obtain ⟨rfl, rfl⟩ := hplain
  have hr₂ := eq_of_scanFraction?_nil hfraction
  have hr₃ := eq_of_scanExponent?_none hexponent
  refine ⟨ds, rest, hcs, hds, ?_, by rw [hr₃, hr₂, hr₁]⟩
  simp

/-- **A plain numeral is a whole number** if it is one of 64 bits. -/
theorem whole?_eq_some_iff (num : Numeral) : num.whole? = some k ↔
    num.plain = true ∧
      (num.negative = false ∧ num.digits < wordBound ∧ k = num.digits ∨
        num.negative = true ∧ 0 < num.digits ∧ num.digits ≤ wordBound / 2 ∧
          k = -(num.digits : Int)) := by
  unfold Numeral.whole?
  cases num.plain <;> cases num.negative <;> simp [eq_comm, and_assoc]

/-! ## Texts -/

/-- White space is cut into nothing, -/
theorem tokens_spaces (h : ∀ c ∈ cs, isSpace c = true) (text : List Glyph) :
    tokens (cs.map some ++ text) = tokens text := by
  induction cs with
  | nil => rfl
  | cons c cs ih =>
    rw [List.forall_mem_cons] at h
    rw [List.map_cons, List.cons_append, tokens_space h.1, ih h.2]

/-- and nothing else is. -/
theorem isSpace_of_tokens_nil (h : tokens (cs.map some) = []) : ∀ c ∈ cs, isSpace c = true := by
  induction cs with
  | nil => simp
  | cons c cs ih =>
    rw [List.map_cons] at h
    cases hc : isSpace c with
    | true =>
      rw [tokens_space hc] at h
      exact List.forall_mem_cons.mpr ⟨hc, ih h⟩
    | false =>
      rw [tokens_some hc] at h
      split at h <;> cases h

/-- White space does not go on with a number. -/
theorem endsPlain_of_spaces (h : ∀ c ∈ rest, isSpace c = true) : EndsPlain rest := by
  intro c hc
  have hspace := h c (List.mem_of_mem_head? hc)
  simp only [isSpace, Bool.or_eq_true, decide_eq_true_eq] at hspace
  rcases hspace with ((rfl | rfl) | rfl) | rfl <;> decide

theorem Digits.head (h : Digits ds) : ∃ c cs, ds = c :: cs ∧ c.isDigit = true := by
  cases ds with
  | nil => exact absurd rfl h.nonempty
  | cons c cs => exact ⟨c, cs, rfl, h.digit c List.mem_cons_self⟩

/-- **A literal between white space is one number.** -/
theorem tokens_literal {literal front back : List Char} (h : Literal literal k)
    (hfront : ∀ c ∈ front, isSpace c = true) (hback : ∀ c ∈ back, isSpace c = true) :
    ∃ num, tokens ((front ++ literal ++ back).map some) = [.number num] ∧
      num.whole? = some k := by
  have hnil : tokens (back.map some) = [] := by
    have hspaces := tokens_spaces hback []
    rwa [List.append_nil] at hspaces
  have hends := endsPlain_of_spaces hback
  rw [List.append_assoc, List.map_append, tokens_spaces hfront]
  cases h with
  | @bare _ hds hbound =>
    obtain ⟨c, cs, rfl, hc⟩ := Digits.head hds
    have hscan := scanNumber?_plain hds hends false
    rw [List.cons_append, List.map_cons] at hscan ⊢
    refine ⟨⟨false, Nat.ofDigitChars 10 (c :: cs) 0, 0, true⟩, ?_,
      (whole?_eq_some_iff _).mpr ⟨rfl, .inl ⟨rfl, hbound, rfl⟩⟩⟩
    rw [tokens_cons (not_isSpace_of_isDigit hc)
      (by rw [scanToken?_digit hc, hscan, Option.map_some]) (Nat.le_refl _), hnil]
  | @minus ds hds hpos hbound =>
    have hscan := scanNumber?_plain hds hends true
    rw [List.cons_append, List.map_cons]
    refine ⟨⟨true, Nat.ofDigitChars 10 ds 0, 0, true⟩, ?_,
      (whole?_eq_some_iff _).mpr ⟨rfl, .inr ⟨rfl, hpos, hbound, rfl⟩⟩⟩
    have htoken : scanToken? ((ds ++ back).map some).length '-' ((ds ++ back).map some) =
        some (.number ⟨true, Nat.ofDigitChars 10 ds 0, 0, true⟩, back.map some) := by
      simp only [scanToken?, hscan, Option.map_some]
    rw [tokens_cons rfl htoken (Nat.le_refl _), hnil]

/-- **A text that is one whole number is such a literal.** -/
theorem exists_literal (h : tokens (cs.map some) = [.number num]) (hnum : num.whole? = some k) :
    ∃ front literal back, cs = front ++ literal ++ back ∧
      (∀ c ∈ front, isSpace c = true) ∧ (∀ c ∈ back, isSpace c = true) ∧ Literal literal k := by
  -- the induction only passes over the white space before the number
  induction cs with
  | nil => cases h
  | cons c cs ih =>
    rw [List.map_cons] at h
    cases hc : isSpace c with
    | true =>
      rw [tokens_space hc] at h
      obtain ⟨front, literal, back, rfl, hfront, hback, hliteral⟩ := ih h
      exact ⟨c :: front, literal, back, rfl, List.forall_mem_cons.mpr ⟨hc, hfront⟩, hback, hliteral⟩
    | false =>
      rw [tokens_some hc] at h
      cases htoken : scanToken? (cs.map some).length c (cs.map some) with
      | none =>
        simp only [htoken] at h
        cases h
      | some found =>
        obtain ⟨t, r⟩ := found
        simp only [htoken, List.cons.injEq] at h
        obtain ⟨rfl, hr⟩ := h
        obtain ⟨hplain, hsign⟩ := (whole?_eq_some_iff num).mp hnum
        rcases scanToken?_number htoken with ⟨rfl, hscan⟩ | ⟨hdigit, hscan⟩
        · obtain ⟨ds, back, rfl, hds, rfl, rfl⟩ := exists_of_scanNumber? hscan hplain
          obtain ⟨hbare, -⟩ | ⟨-, hpos, hbound, rfl⟩ := hsign
          · cases hbare
          · exact ⟨[], '-' :: ds, back, rfl, by simp, isSpace_of_tokens_nil hr,
              .minus hds hpos hbound⟩
        · rw [← List.map_cons] at hscan
          obtain ⟨ds, back, hcs, hds, rfl, rfl⟩ := exists_of_scanNumber? hscan hplain
          obtain ⟨-, hbound, rfl⟩ | ⟨hminus, -⟩ := hsign
          · exact ⟨[], ds, back, hcs, by simp, isSpace_of_tokens_nil hr, .bare hds hbound⟩
          · cases hminus

end Json

end Marginalia
