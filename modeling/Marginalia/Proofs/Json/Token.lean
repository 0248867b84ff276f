import Marginalia.Json.Printer
import Marginalia.Json.Token
import Mathlib.Data.List.Basic

/-!
# Json — what a text is cut into

A token takes at least one glyph of a text, so a text is cut up one token
after the other whatever fuel is left (`Json.tokens_cons`). What is
written of a string is cut into that string (`Json.tokens_writeString`).
A number goes on as far as it can, so a text is cut alike only in front of
something that ends a number (`Json.tokens_append`).
-/

namespace Marginalia.Json

open Text (Glyph)

variable {text rest r more : List Glyph} {c : Char} {cs : List Char} {fuel m n : Nat}
variable {negative : Bool} {t : Token}

/-! ## Strings, piece by piece -/

theorem length_codeUnit? (h : codeUnit? text = some (n, r)) : r.length + 4 = text.length := by
  unfold codeUnit? at h
  split at h
  · simp only [Option.bind_eq_bind, Option.bind_eq_some_iff, Option.pure_def, Option.some.injEq,
      Prod.mk.injEq] at h
    obtain ⟨_, _, _, _, _, _, _, _, _, rfl⟩ := h
    rfl
  · cases h

/-- One piece off the front of a string, and the text after it; no piece
is the closing quote. -/
def scanPiece? : List Glyph → Option (Option Piece × List Glyph)
  | [] => none
  | none :: rest => some (some .byte, rest)
  | some c :: rest =>
    if c = '"' then some (none, rest)
    else if c = '\\' then
      match rest with
      | some e :: rest =>
        if e = 'u' then (codeUnit? rest).map fun (n, r) => (some (.unit n), r)
        else (shortEscape? e).map fun c => (some (.char c), rest)
      | _ => none
    else if c.toNat < 0x20 then none
    else some (some (.char c), rest)

theorem scanString_succ (fuel : Nat) (text : List Glyph) :
    scanString (fuel + 1) text =
      (scanPiece? text).bind fun (p, r) =>
        match p with
        | none => some ([], r)
        | some p => (scanString fuel r).map fun (ps, r) => (p :: ps, r) := by
  match text with
  | [] => rfl
  | none :: rest => rfl
  | some c :: rest =>
    by_cases hquote : c = '"'
    · simp [scanString, scanPiece?, hquote]
    by_cases hescape : c = '\\'
    · match rest with
      | [] => simp [scanString, scanPiece?, hescape]
      | none :: rest => simp [scanString, scanPiece?, hescape]
      | some e :: rest =>
        by_cases hu : e = 'u'
        · cases hunit : codeUnit? rest with
          | none => simp [scanString, scanPiece?, hescape, hu, hunit]
          | some unit =>
            cases hrest : scanString fuel unit.2 <;>
              simp [scanString, scanPiece?, hescape, hu, hunit, hrest]
        · cases hshort : shortEscape? e with
          | none => simp [scanString, scanPiece?, hescape, hu, hshort]
          | some d =>
            cases hrest : scanString fuel rest <;>
              simp [scanString, scanPiece?, hescape, hu, hshort, hrest]
    · by_cases hcontrol : c.toNat < 0x20 <;>
        simp [scanString, scanPiece?, hquote, hescape, hcontrol]

theorem length_scanPiece? {p : Option Piece} (h : scanPiece? text = some (p, r)) :
    r.length < text.length := by
  unfold scanPiece? at h
  split at h
  · cases h
  · cases h
    simp
  · rename_i c rest
    split at h
    · cases h
      simp
    split at h
    · split at h
      · rename_i e rest
        split at h
        · obtain ⟨⟨n, r'⟩, hunit, heq⟩ := Option.map_eq_some_iff.mp h
          cases heq
          have := length_codeUnit? hunit
          simp only [List.length_cons]
          omega
        · obtain ⟨_, _, heq⟩ := Option.map_eq_some_iff.mp h
          cases heq
          simp only [List.length_cons]
          omega
      · cases h
    split at h
    · cases h
    · cases h
      simp

theorem length_scanString {ps : List Piece} (h : scanString fuel text = some (ps, r)) :
    r.length < text.length := by
  induction fuel generalizing text ps with
  | zero => simp [scanString] at h
  | succ fuel ih =>
    rw [scanString_succ] at h
    obtain ⟨⟨p, rest⟩, hpiece, h⟩ := Option.bind_eq_some_iff.mp h
    have hrest := length_scanPiece? hpiece
    cases p with
    | none =>
      cases h
      exact hrest
    | some p =>
      obtain ⟨⟨ps, r'⟩, hstring, heq⟩ := Option.map_eq_some_iff.mp h
      cases heq
      exact Nat.lt_trans (ih hstring) hrest

/-- A string is read alike with any fuel that is enough. -/
theorem scanString_congr (hm : text.length ≤ m) (hn : text.length ≤ n) :
    scanString m text = scanString n text := by
  induction m generalizing text n with
  | zero =>
    obtain rfl : text = [] := List.length_eq_zero_iff.mp (by omega)
    cases n <;> rfl
  | succ m ih =>
    cases n with
    | zero =>
      obtain rfl : text = [] := List.length_eq_zero_iff.mp (by omega)
      rfl
    | succ n =>
      rw [scanString_succ, scanString_succ]
      refine Option.bind_congr fun ⟨p, r⟩ hpiece => ?_
      have hr := length_scanPiece? hpiece
      cases p with
      | none => rfl
      | some p => simp only [ih (show r.length ≤ m by omega) (show r.length ≤ n by omega)]

/-! ## Numbers -/

/-- What may come after a value: nothing, a comma or a closing bracket. -/
def Delimited : List Glyph → Prop
  | some c :: _ => c = ',' ∨ c = ']' ∨ c = '\x7d'
  | _ => True

/-- A scan that takes nothing of what may come after a value. -/
def Stops {α : Type} (scan : List Glyph → Option (α × List Glyph)) : Prop :=
  ∀ text rest, Delimited rest →
    scan (text ++ rest) = (scan text).map fun (a, r) => (a, r ++ rest)

theorem Stops.bind {α β : Type} {scan : List Glyph → Option (α × List Glyph)}
    {next : α → List Glyph → Option (β × List Glyph)} (h : Stops scan)
    (hnext : ∀ a, Stops (next a)) : Stops fun text => (scan text).bind fun (a, r) => next a r := by
  intro text rest hrest
  simp only [h text rest hrest]
  cases scan text with
  | none => rfl
  | some found => exact hnext found.1 found.2 rest hrest

theorem stops_some {α : Type} (a : α) : Stops fun text => some (a, text) :=
  fun _ _ _ => rfl

theorem scanDigits_delimited (h : Delimited rest) : scanDigits rest = ([], rest) := by
  match rest with
  | [] => rfl
  | none :: rest => rfl
  | some c :: rest =>
    rcases h with rfl | rfl | rfl <;> rfl

theorem scanDigits_append (h : Delimited rest) (text : List Glyph) :
    scanDigits (text ++ rest) = ((scanDigits text).1, (scanDigits text).2 ++ rest) := by
  induction text with
  | nil => exact scanDigits_delimited h
  | cons g text ih =>
    cases g with
    | none => rfl
    | some c =>
      simp only [List.cons_append, scanDigits, ih]
      split <;> rfl

theorem length_scanDigits (text : List Glyph) :
    (scanDigits text).1.length + (scanDigits text).2.length = text.length := by
  induction text with
  | nil => rfl
  | cons g text ih =>
    cases g with
    | none => simp [scanDigits]
    | some c =>
      simp only [scanDigits]
      split <;> simp only [List.length_cons, List.length_nil] <;> omega

theorem scanDigits1?_eq (text : List Glyph) :
    scanDigits1? text = if (scanDigits text).1 = [] then none else some (scanDigits text) := by
  unfold scanDigits1?
  obtain ⟨ds, r⟩ := scanDigits text
  cases ds <;> rfl

theorem stops_scanDigits1? : Stops scanDigits1? := by
  intro text rest hrest
  simp only [scanDigits1?_eq, scanDigits_append hrest]
  split <;> rfl

theorem scanWhole?_eq (text : List Glyph) :
    scanWhole? text = (scanDigits1? text).bind fun (ds, r) =>
      if ds.head? = some '0' ∧ 1 < ds.length then none else some (ds, r) := by
  unfold scanWhole?
  match scanDigits1? text with
  | none => rfl
  | some ([], r) => simp
  | some ([d], r) => simp
  | some (d :: e :: ds, r) =>
    by_cases hd : d = '0' <;> simp [hd]

theorem stops_scanWhole? : Stops scanWhole? := by
  intro text rest hrest
  rw [scanWhole?_eq, scanWhole?_eq, stops_scanDigits1? text rest hrest]
  cases scanDigits1? text with
  | none => rfl
  | some found =>
    simp only [Option.map_some, Option.bind_some]
    split <;> rfl

theorem scanFraction?_of_ne (h : ∀ r, text ≠ some '.' :: r) :
    scanFraction? text = some ([], text) := by
  unfold scanFraction?
  split
  · exact absurd rfl (h _)
  · rfl

theorem scanExponent?_of_ne (h : ∀ r, text ≠ some 'e' :: r ∧ text ≠ some 'E' :: r) :
    scanExponent? text = some (none, text) := by
  unfold scanExponent?
  split
  · exact absurd rfl (h _).1
  · exact absurd rfl (h _).2
  · rfl

theorem Delimited.head_ne (h : Delimited rest) {c : Char} (hc : c ≠ ',' ∧ c ≠ ']' ∧ c ≠ '\x7d') :
    ∀ r, rest ≠ some c :: r := by
  rintro r rfl
  rcases h with rfl | rfl | rfl
  · exact hc.1 rfl
  · exact hc.2.1 rfl
  · exact hc.2.2 rfl

theorem stops_scanFraction? : Stops scanFraction? := by
  intro text rest hrest
  match text with
  | [] =>
    rw [List.nil_append, scanFraction?_of_ne (hrest.head_ne (by decide))]
    rfl
  | none :: text => rfl
  | some c :: text =>
    by_cases hc : c = '.'
    · subst hc
      exact stops_scanDigits1? text rest hrest
    · have hne : ∀ t r : List Glyph, some c :: t ≠ some '.' :: r := by simp [hc]
      rw [List.cons_append, scanFraction?_of_ne (hne _), scanFraction?_of_ne (hne _)]
      rfl

/-- The sign of a power of ten. -/
def takeSign : List Glyph → Bool × List Glyph
  | some '-' :: rest => (true, rest)
  | some '+' :: rest => (false, rest)
  | rest => (false, rest)

theorem takeSign_append (h : Delimited rest) (text : List Glyph) :
    takeSign (text ++ rest) = ((takeSign text).1, (takeSign text).2 ++ rest) := by
  match text with
  | [] =>
    match rest with
    | [] => rfl
    | none :: rest => rfl
    | some c :: rest => rcases h with rfl | rfl | rfl <;> rfl
  | none :: text => rfl
  | some c :: text =>
    by_cases hminus : c = '-'
    · subst hminus
      rfl
    by_cases hplus : c = '+'
    · subst hplus
      rfl
    simp [takeSign, hminus, hplus]

/-- What follows an `e`. -/
def scanPower? (text : List Glyph) : Option (Option Int × List Glyph) :=
  (scanDigits1? (takeSign text).2).map fun (ds, r) =>
    let n : Int := Nat.ofDigitChars 10 ds 0
    (some (if (takeSign text).1 then -n else n), r)

theorem stops_scanPower? : Stops scanPower? := by
  intro text rest hrest
  simp only [scanPower?, takeSign_append hrest, stops_scanDigits1? _ rest hrest, Option.map_map]
  rfl

theorem stops_scanExponent? : Stops scanExponent? := by
  intro text rest hrest
  match text with
  | [] =>
    have hne : ∀ r, rest ≠ some 'e' :: r ∧ rest ≠ some 'E' :: r := fun r =>
      ⟨hrest.head_ne (by decide) r, hrest.head_ne (by decide) r⟩
    rw [List.nil_append, scanExponent?_of_ne hne]
    rfl
  | none :: text => rfl
  | some c :: text =>
    by_cases hlower : c = 'e'
    · subst hlower
      exact stops_scanPower? text rest hrest
    by_cases hupper : c = 'E'
    · subst hupper
      exact stops_scanPower? text rest hrest
    have hne : ∀ t r : List Glyph, some c :: t ≠ some 'e' :: r ∧ some c :: t ≠ some 'E' :: r := by
      simp [hlower, hupper]
    rw [List.cons_append, scanExponent?_of_ne (hne _), scanExponent?_of_ne (hne _)]
    rfl

theorem stops_scanNumber? (negative : Bool) : Stops (scanNumber? negative) := by
  exact stops_scanWhole?.bind fun front => stops_scanFraction?.bind fun fraction =>
    stops_scanExponent?.bind fun exponent => stops_some
      (⟨negative, Nat.ofDigitChars 10 (front ++ fraction) 0, exponent.getD 0 - fraction.length,
        fraction.isEmpty && exponent.isNone⟩ : Numeral)

theorem length_scanDigits1? {ds : List Char} (h : scanDigits1? text = some (ds, r)) :
    r.length < text.length := by
  have hlength := length_scanDigits text
  rw [scanDigits1?_eq] at h
  split at h
  · cases h
  · rename_i hne
    have hpos := List.length_pos_iff.mpr hne
    rw [Option.some.inj h] at hlength hpos
    dsimp only at hlength hpos
    omega

theorem length_scanWhole? {ds : List Char} (h : scanWhole? text = some (ds, r)) :
    r.length < text.length := by
  rw [scanWhole?_eq] at h
  obtain ⟨⟨found, r'⟩, hfound, h⟩ := Option.bind_eq_some_iff.mp h
  dsimp only at h
  split at h
  · cases h
  · cases h
    exact length_scanDigits1? hfound

theorem length_scanFraction? {ds : List Char} (h : scanFraction? text = some (ds, r)) :
    r.length ≤ text.length := by
  unfold scanFraction? at h
  split at h
  · exact Nat.le_succ_of_le (Nat.le_of_lt (length_scanDigits1? h))
  · cases h
    exact Nat.le_refl _

theorem length_takeSign (text : List Glyph) : (takeSign text).2.length ≤ text.length := by
  unfold takeSign
  split <;> simp

theorem length_scanPower? {e : Option Int} (h : scanPower? text = some (e, r)) :
    r.length < text.length := by
  obtain ⟨found, hfound, heq⟩ := Option.map_eq_some_iff.mp h
  cases heq
  exact Nat.lt_of_lt_of_le (length_scanDigits1? hfound) (length_takeSign text)

theorem length_scanExponent? {e : Option Int} (h : scanExponent? text = some (e, r)) :
    r.length ≤ text.length := by
  unfold scanExponent? at h
  split at h
  · exact Nat.le_succ_of_le (Nat.le_of_lt (length_scanPower? h))
  · exact Nat.le_succ_of_le (Nat.le_of_lt (length_scanPower? h))
  · cases h
    exact Nat.le_refl _

theorem length_scanNumber? {n : Numeral} (h : scanNumber? negative text = some (n, r)) :
    r.length < text.length := by
  obtain ⟨front, hfront, h⟩ := Option.bind_eq_some_iff.mp h
  obtain ⟨fraction, hfraction, h⟩ := Option.bind_eq_some_iff.mp h
  obtain ⟨exponent, hexponent, h⟩ := Option.bind_eq_some_iff.mp h
  cases h
  have h₁ := length_scanWhole? hfront
  have h₂ := length_scanFraction? hfraction
  have h₃ := length_scanExponent? hexponent
  omega

/-! ## Tokens -/

theorem scanToken?_digit (hc : c.isDigit = true) (fuel : Nat) (rest : List Glyph) :
    scanToken? fuel c rest =
      (scanNumber? false (some c :: rest)).map fun (n, r) => (.number n, r) := by
  unfold scanToken?
  split
  case h_12 => exact if_pos hc
  all_goals exact absurd hc (by decide)

theorem length_scanToken? (h : scanToken? fuel c rest = some (t, r)) :
    r.length ≤ rest.length := by
  unfold scanToken? at h
  split at h
  case h_10 =>
    obtain ⟨found, hfound, heq⟩ := Option.map_eq_some_iff.mp h
    cases heq
    exact Nat.le_of_lt (length_scanString hfound)
  case h_11 =>
    obtain ⟨found, hfound, heq⟩ := Option.map_eq_some_iff.mp h
    cases heq
    exact Nat.le_of_lt (length_scanNumber? hfound)
  case h_12 =>
    split at h
    · obtain ⟨found, hfound, heq⟩ := Option.map_eq_some_iff.mp h
      cases heq
      exact Nat.le_of_lt_succ (length_scanNumber? hfound)
    · cases h
  case h_7 | h_8 | h_9 =>
    cases h
    simp only [List.length_cons]
    omega
  all_goals
    cases h
    exact Nat.le_refl _

/-- A token is read alike with any fuel that is enough. -/
theorem scanToken?_congr (hm : rest.length ≤ m) (hn : rest.length ≤ n) (c : Char) :
    scanToken? m c rest = scanToken? n c rest := by
  unfold scanToken?
  split <;> first | rfl | rw [scanString_congr hm hn]

theorem tokensWithin_congr (hm : text.length ≤ m) (hn : text.length ≤ n) :
    tokensWithin m text = tokensWithin n text := by
  induction m generalizing text n with
  | zero =>
    obtain rfl : text = [] := List.length_eq_zero_iff.mp (by omega)
    cases n <;> rfl
  | succ m ih =>
    cases n with
    | zero =>
      obtain rfl : text = [] := List.length_eq_zero_iff.mp (by omega)
      rfl
    | succ n =>
      match text with
      | [] => rfl
      | none :: rest => rfl
      | some c :: rest =>
        have hm : rest.length ≤ m := by simpa using hm
        have hn : rest.length ≤ n := by simpa using hn
        simp only [tokensWithin, ih hm hn, scanToken?_congr hm hn c]
        split
        · rfl
        cases htoken : scanToken? n c rest with
        | none => rfl
        | some found =>
          have hr := length_scanToken? (show scanToken? n c rest = some (found.1, found.2) from htoken)
          simp only [ih (Nat.le_trans hr hm) (Nat.le_trans hr hn)]

theorem tokens_nil : tokens [] = [] := rfl

theorem tokens_space (hc : isSpace c = true) (rest : List Glyph) :
    tokens (some c :: rest) = tokens rest := by
  simp only [tokens, List.length_cons, tokensWithin, hc, if_true]

/-- The token at the front of a text, and those after it. -/
theorem tokens_some (hc : isSpace c = false) (rest : List Glyph) :
    tokens (some c :: rest) =
      match scanToken? rest.length c rest with
      | some (t, r) => t :: tokens r
      | none => [.stray] := by
  simp only [tokens, List.length_cons, tokensWithin, hc, Bool.false_eq_true, if_false]
  cases htoken : scanToken? rest.length c rest with
  | none => rfl
  | some found =>
    have hr := length_scanToken? (r := found.2) htoken
    simp only [tokensWithin_congr hr (Nat.le_refl _)]

/-- **One token after the other.** -/
theorem tokens_cons (hc : isSpace c = false) (h : scanToken? fuel c rest = some (t, r))
    (hfuel : rest.length ≤ fuel) : tokens (some c :: rest) = t :: tokens r := by
  rw [scanToken?_congr hfuel (Nat.le_refl _)] at h
  rw [tokens_some hc, h]

/-- A number starts with a minus or a digit. -/
theorem scanToken?_number {num : Numeral} (h : scanToken? fuel c rest = some (.number num, r)) :
    c = '-' ∧ scanNumber? true rest = some (num, r) ∨
      c.isDigit = true ∧ scanNumber? false (some c :: rest) = some (num, r) := by
  unfold scanToken? at h
  split at h
  case h_10 =>
    obtain ⟨_, _, heq⟩ := Option.map_eq_some_iff.mp h
    cases heq
  case h_11 =>
    obtain ⟨_, hnumber, heq⟩ := Option.map_eq_some_iff.mp h
    cases heq
    exact .inl ⟨rfl, hnumber⟩
  case h_12 =>
    split at h
    · rename_i hdigit
      obtain ⟨_, hnumber, heq⟩ := Option.map_eq_some_iff.mp h
      cases heq
      exact .inr ⟨hdigit, hnumber⟩
    · cases h
  all_goals cases h

/-! ## In front of more text -/

theorem codeUnit?_append (h : codeUnit? text = some (n, r)) (more : List Glyph) :
    codeUnit? (text ++ more) = some (n, r ++ more) := by
  unfold codeUnit? at h
  split at h
  · rename_i a b c d rest
    simp only [Option.bind_eq_bind, Option.bind_eq_some_iff, Option.pure_def, Option.some.injEq,
      Prod.mk.injEq] at h
    obtain ⟨a', ha, b', hb, c', hc, d', hd, rfl, rfl⟩ := h
    simp [codeUnit?, ha, hb, hc, hd]
  · cases h

theorem scanPiece?_append {p : Option Piece} (h : scanPiece? text = some (p, r))
    (more : List Glyph) : scanPiece? (text ++ more) = some (p, r ++ more) := by
  match text with
  | [] => cases h
  | none :: rest =>
    cases h
    rfl
  | some c :: rest =>
    simp only [List.cons_append, scanPiece?] at h ⊢
    by_cases hquote : c = '"'
    · rw [if_pos hquote] at h ⊢
      cases h
      rfl
    rw [if_neg hquote] at h ⊢
    by_cases hescape : c = '\\'
    · rw [if_pos hescape] at h ⊢
      match rest with
      | [] => cases h
      | none :: rest => cases h
      | some e :: rest =>
        rw [List.cons_append]
        dsimp only at h ⊢
        by_cases hu : e = 'u'
        · rw [if_pos hu] at h ⊢
          obtain ⟨⟨n, r'⟩, hunit, heq⟩ := Option.map_eq_some_iff.mp h
          cases heq
          rw [codeUnit?_append hunit more]
          rfl
        · rw [if_neg hu] at h ⊢
          obtain ⟨d, hd, heq⟩ := Option.map_eq_some_iff.mp h
          cases heq
          rw [hd]
          rfl
    rw [if_neg hescape] at h ⊢
    by_cases hcontrol : c.toNat < 0x20
    · rw [if_pos hcontrol] at h
      cases h
    · rw [if_neg hcontrol] at h ⊢
      cases h
      rfl

theorem scanString_append {ps : List Piece} (h : scanString fuel text = some (ps, r))
    (more : List Glyph) : scanString fuel (text ++ more) = some (ps, r ++ more) := by
  induction fuel generalizing text ps with
  | zero => simp [scanString] at h
  | succ fuel ih =>
    rw [scanString_succ] at h ⊢
    obtain ⟨⟨p, rest⟩, hpiece, h⟩ := Option.bind_eq_some_iff.mp h
    rw [scanPiece?_append hpiece more, Option.bind_some]
    cases p with
    | none =>
      cases h
      rfl
    | some p =>
      obtain ⟨⟨ps, r'⟩, hstring, heq⟩ := Option.map_eq_some_iff.mp h
      cases heq
      simp only [ih hstring, Option.map_some]

/-- What comes after a token does not reach into it, if it ends a number. -/
theorem scanToken?_append (h : scanToken? rest.length c rest = some (t, r))
    (hmore : Delimited more) :
    scanToken? (rest ++ more).length c (rest ++ more) = some (t, r ++ more) := by
  unfold scanToken? at h
  split at h
  case h_10 =>
    obtain ⟨⟨ps, r'⟩, hstring, heq⟩ := Option.map_eq_some_iff.mp h
    cases heq
    have hlonger : rest.length ≤ (rest ++ more).length := by simp
    rw [scanString_congr (Nat.le_refl _) hlonger] at hstring
    simp only [scanToken?, scanString_append hstring more, Option.map_some]
  case h_11 =>
    obtain ⟨⟨num, r'⟩, hnumber, heq⟩ := Option.map_eq_some_iff.mp h
    cases heq
    have hstops := stops_scanNumber? true rest more hmore
    simp only [scanToken?, hstops, hnumber, Option.map_some]
  case h_12 =>
    split at h
    · rename_i hdigit
      obtain ⟨⟨num, r'⟩, hnumber, heq⟩ := Option.map_eq_some_iff.mp h
      cases heq
      have hstops := stops_scanNumber? false (some c :: rest) more hmore
      rw [List.cons_append] at hstops
      simp only [scanToken?_digit hdigit, hstops, hnumber, Option.map_some]
    · cases h
  all_goals
    cases h
    rfl

/-- **A text without a fault is cut alike in front of what ends a
number.** -/
theorem tokens_append (h : .stray ∉ tokens text) (hmore : Delimited more) :
    tokens (text ++ more) = tokens text ++ tokens more := by
  induction hlength : text.length using Nat.strongRecOn generalizing text with
  | ind n ih =>
    subst hlength
    match text with
    | [] => rfl
    | none :: rest => exact absurd List.mem_cons_self h
    | some c :: rest =>
      cases hc : isSpace c with
      | true =>
        rw [tokens_space hc] at h ⊢
        rw [List.cons_append, tokens_space hc]
        exact ih rest.length (Nat.lt_succ_self _) h rfl
      | false =>
        cases htoken : scanToken? rest.length c rest with
        | none =>
          rw [tokens_some hc, htoken] at h
          exact absurd List.mem_cons_self h
        | some found =>
          obtain ⟨t, r⟩ := found
          have hr := length_scanToken? htoken
          rw [tokens_cons hc htoken (Nat.le_refl _)] at h ⊢
          rw [List.cons_append, tokens_cons hc (scanToken?_append htoken hmore) (Nat.le_refl _),
            List.cons_append]
          exact congrArg _ (ih r.length (Nat.lt_succ_of_le hr)
            (fun hmem => h (List.mem_cons_of_mem _ hmem)) rfl)

/-- A number that is alone in a text is read as such in front of what ends
it. -/
theorem tokens_number_append {num : Numeral} (h : tokens text = [.number num])
    (hrest : Delimited rest) : tokens (text ++ rest) = .number num :: tokens rest := by
  have hsound : .stray ∉ tokens text := by simp [h]
  rw [tokens_append hsound hrest, h]
  rfl

end Marginalia.Json
