import Marginalia.Json.Printer
import Marginalia.Proofs.Json.Token

/-!
# Json — what is written is cut into what was meant

Every message has its own list of tokens (`Json.lex`), and its text is cut
into those (`Json.tokens_write`). The text of a double is taken as it is:
it has to be one number when it stands alone.
-/

namespace Marginalia.Json

open Text (Glyph)

variable {rest : List Glyph} {c : Char} {cs : List Char} {fuel n : Nat}

/-! ## Strings -/

theorem hexValue?_digitChar : ∀ d < 16, hexValue? (Nat.digitChar d) = some d := by
  decide

theorem codeUnit?_hexDigits4 (h : n < 65536) (rest : List Glyph) :
    codeUnit? ((hexDigits4 n).map some ++ rest) = some (n, rest) := by
  have hdigit (k : Nat) : hexValue? (Nat.digitChar (k % 16)) = some (k % 16) :=
    hexValue?_digitChar _ (Nat.mod_lt _ (by decide))
  have hsum : 4096 * (n / 4096 % 16) + 256 * (n / 256 % 16) + 16 * (n / 16 % 16) + n % 16 = n := by
    omega
  simp [hexDigits4, codeUnit?, hdigit, hsum]

theorem spell_unit (h : n < 0xd800) (ps : List Piece) :
    spell (.unit n :: ps) = (spell ps).map (Char.ofNat n :: ·) := by
  cases ps with
  | nil => simp [spell, h]
  | cons p ps => cases p <;> simp [spell, h]

/-- What is written of a character is one piece, and spells it. -/
theorem escapeChar_spec (c : Char) :
    ∃ p, (∀ rest, scanPiece? ((escapeChar c).map some ++ rest) = some (some p, rest)) ∧
      ∀ ps, spell (p :: ps) = (spell ps).map (c :: ·) := by
  by_cases hshort : c ∈ ['"', '\\', '\x08', '\t', '\n', '\x0c', '\r']
  · refine ⟨.char c, fun rest => ?_, fun ps => rfl⟩
    simp only [List.mem_cons, List.not_mem_nil, or_false] at hshort
    rcases hshort with rfl | rfl | rfl | rfl | rfl | rfl | rfl <;> rfl
  simp only [List.mem_cons, List.not_mem_nil, or_false, not_or] at hshort
  obtain ⟨hquote, hescape, h₁, h₂, h₃, h₄, h₅⟩ := hshort
  by_cases hcontrol : c.toNat < 0x20
  · refine ⟨.unit c.toNat, fun rest => ?_, fun ps => ?_⟩
    · have hunit := codeUnit?_hexDigits4 (show c.toNat < 65536 by omega) rest
      simp [escapeChar, scanPiece?, hquote, hescape, h₁, h₂, h₃, h₄, h₅, hcontrol, hunit]
    · rw [spell_unit (by omega), Char.ofNat_toNat]
  · refine ⟨.char c, fun rest => ?_, fun ps => rfl⟩
    simp [escapeChar, scanPiece?, hquote, hescape, h₁, h₂, h₃, h₄, h₅, hcontrol]

/-- The characters of a string are read back up to its closing quote. -/
theorem scanString_escape (cs : List Char) (rest : List Glyph) (h : cs.length < fuel) :
    ∃ ps, scanString fuel ((cs.flatMap escapeChar).map some ++ some '"' :: rest) =
      some (ps, rest) ∧ spell ps = some cs := by
  induction cs generalizing fuel with
  | nil =>
    obtain ⟨fuel, rfl⟩ : ∃ k, fuel = k + 1 := ⟨fuel - 1, by omega⟩
    exact ⟨[], rfl, rfl⟩
  | cons c cs ih =>
    obtain ⟨fuel, rfl⟩ : ∃ k, fuel = k + 1 := ⟨fuel - 1, by omega⟩
    obtain ⟨p, hpiece, hspell⟩ := escapeChar_spec c
    obtain ⟨ps, hps, hcs⟩ := ih (show cs.length < fuel by simpa using h)
    refine ⟨p :: ps, ?_, by rw [hspell, hcs]; rfl⟩
    rw [scanString_succ, List.flatMap_cons, List.map_append, List.append_assoc, hpiece]
    simp only [Option.bind_some, hps, Option.map_some]

theorem length_le_flatMap_escapeChar (cs : List Char) :
    cs.length ≤ (cs.flatMap escapeChar).length := by
  induction cs with
  | nil => exact Nat.le_refl _
  | cons c cs ih =>
    have hpos : 0 < (escapeChar c).length := by
      unfold escapeChar
      repeat' split
      all_goals exact Nat.succ_pos _
    rw [List.flatMap_cons, List.length_append, List.length_cons]
    omega

/-- **A string is read back.** -/
theorem tokens_writeString (s : String) (cs : List Char) :
    tokens ((writeString s cs).map some) = .string (some s) :: tokens (cs.map some) := by
  have hlength := length_le_flatMap_escapeChar s.toList
  have htext : (writeString s cs).map some =
      some '"' :: ((s.toList.flatMap escapeChar).map some ++ some '"' :: cs.map some) := by
    simp [writeString]
  obtain ⟨ps, hps, hspell⟩ := scanString_escape s.toList (cs.map some)
    (Nat.lt_succ_of_le (Nat.le_trans hlength (Nat.le_add_right _ cs.length)))
  have htoken : scanToken? ((s.toList.flatMap escapeChar).length + cs.length + 1) '"'
      ((s.toList.flatMap escapeChar).map some ++ some '"' :: cs.map some) =
        some (.string (some s), cs.map some) := by
    simp only [scanToken?, hps, hspell, Option.map_some, String.ofList_toList]
  rw [htext, tokens_cons rfl htoken (by simp; omega)]

/-! ## Whole numbers -/

theorem scanDigits_map (h : ∀ c ∈ cs, c.isDigit = true) :
    scanDigits (cs.map some) = (cs, []) := by
  induction cs with
  | nil => rfl
  | cons c cs ih =>
    rw [List.forall_mem_cons] at h
    simp only [List.map_cons, scanDigits, h.1, if_true, ih h.2]

/-- Only zero starts with a zero. -/
theorem toDigits_eq_zero_cons (h : Nat.toDigits 10 n = '0' :: cs) : cs = [] := by
  induction n using Nat.strongRecOn generalizing cs with
  | ind n ih =>
    rcases Nat.lt_or_ge n 10 with hlt | hge
    · rw [Nat.toDigits_of_lt_base hlt] at h
      exact (List.cons.inj h).2.symm
    · rw [Nat.toDigits_of_base_le (by decide) hge] at h
      obtain ⟨front, hfront⟩ : ∃ front, Nat.toDigits 10 (n / 10) = '0' :: front := by
        cases hdigits : Nat.toDigits 10 (n / 10) with
        | nil => exact absurd hdigits Nat.toDigits_ne_nil
        | cons d ds =>
          rw [hdigits] at h
          exact ⟨ds, by rw [(List.cons.inj h).1]⟩
      have hzero : n / 10 = 0 := by
        have hnil := ih (n / 10) (by omega) hfront
        rw [← Nat.ofDigitChars_ten_toDigits (n := n / 10), hfront, hnil]
        rfl
      omega

theorem scanNumber?_toDigits (negative : Bool) (n : Nat) :
    scanNumber? negative ((Nat.toDigits 10 n).map some) = some (⟨negative, n, 0, true⟩, []) := by
  have hdigits : scanDigits1? ((Nat.toDigits 10 n).map some) = some (Nat.toDigits 10 n, []) := by
    rw [scanDigits1?_eq, scanDigits_map fun c hc =>
      Nat.isDigit_of_mem_toDigits (by decide) (by decide) hc]
    exact if_neg Nat.toDigits_ne_nil
  have hwhole : scanWhole? ((Nat.toDigits 10 n).map some) = some (Nat.toDigits 10 n, []) := by
    rw [scanWhole?_eq, hdigits, Option.bind_some]
    refine if_neg fun ⟨hhead, hlength⟩ => ?_
    obtain ⟨ds, hds⟩ := List.head?_eq_some_iff.mp hhead
    rw [hds, toDigits_eq_zero_cons hds] at hlength
    exact absurd hlength (by decide)
  simp [scanNumber?, hwhole, scanFraction?, scanExponent?]

/-- What a whole number is read as. -/
def wholeNumeral (n : Int) : Numeral := ⟨decide (n < 0), n.natAbs, 0, true⟩

theorem tokens_minus {num : Numeral} (h : scanNumber? true rest = some (num, [])) :
    tokens (some '-' :: rest) = [.number num] := by
  have htoken : scanToken? rest.length '-' rest = some (.number num, []) := by
    simp only [scanToken?, h, Option.map_some]
  rw [tokens_cons rfl htoken (Nat.le_refl _), tokens_nil]

theorem not_isSpace_of_isDigit (hc : c.isDigit = true) : isSpace c = false := by
  cases hspace : isSpace c with
  | false => rfl
  | true =>
    simp only [isSpace, Bool.or_eq_true, decide_eq_true_eq] at hspace
    rcases hspace with ((rfl | rfl) | rfl) | rfl <;> cases hc

theorem tokens_digit {num : Numeral} (hc : c.isDigit = true)
    (h : scanNumber? false (some c :: rest) = some (num, [])) :
    tokens (some c :: rest) = [.number num] := by
  have htoken : scanToken? rest.length c rest = some (.number num, []) := by
    simp only [scanToken?_digit hc, h, Option.map_some]
  rw [tokens_cons (not_isSpace_of_isDigit hc) htoken (Nat.le_refl _), tokens_nil]

/-- **A whole number is read back.** -/
theorem tokens_wholeText (n : Int) :
    tokens ((wholeText n).map some) = [.number (wholeNumeral n)] := by
  cases n with
  | ofNat n =>
    have hnumber := scanNumber?_toDigits false n
    simp only [wholeText, wholeNumeral]
    cases hdigits : Nat.toDigits 10 n with
    | nil => exact absurd hdigits Nat.toDigits_ne_nil
    | cons c cs =>
      have hc : c.isDigit = true :=
        Nat.isDigit_of_mem_toDigits (by decide) (by decide) (hdigits ▸ List.mem_cons_self)
      rw [hdigits] at hnumber
      exact tokens_digit hc hnumber
  | negSucc n =>
    have hnumeral : wholeNumeral (.negSucc n) = ⟨true, n + 1, 0, true⟩ := by
      simp [wholeNumeral, Int.negSucc_lt_zero]
    rw [hnumeral]
    exact tokens_minus (scanNumber?_toDigits true (n + 1))

/-! ## Messages -/

mutual

/-- The tokens of a message. -/
def lex : Json → List Token
  | .null => [.null]
  | .bool b => [.bool b]
  | .whole n => [.number (wholeNumeral n)]
  | .real negative rank =>
    tokens ((Number.finiteText Number.messageStyle negative rank).map some)
  | .string s => [.string (some s)]
  | .array [] => [.openArray, .closeArray]
  | .array (item :: items) => .openArray :: (item.lex ++ lexItems items)
  | .object [] => [.openObject, .closeObject]
  | .object ((key, value) :: members) =>
    .openObject :: .string (some key) :: .colon :: (value.lex ++ lexMembers members)

/-- The tokens of the items after the first, and of the end of the
array. -/
def lexItems : List Json → List Token
  | [] => [.closeArray]
  | item :: items => .comma :: (item.lex ++ lexItems items)

/-- The tokens of the members after the first, and of the end of the
object. -/
def lexMembers : List (String × Json) → List Token
  | [] => [.closeObject]
  | (key, value) :: members =>
    .comma :: .string (some key) :: .colon :: (value.lex ++ lexMembers members)

end

mutual

/-- Every double in the message is one number when it stands alone. -/
def Legible : Json → Prop
  | .real negative rank =>
    ∃ num, tokens ((Number.finiteText Number.messageStyle negative rank).map some) = [.number num]
  | .array items => LegibleItems items
  | .object members => LegibleMembers members
  | _ => True

def LegibleItems : List Json → Prop
  | [] => True
  | item :: items => item.Legible ∧ LegibleItems items

def LegibleMembers : List (String × Json) → Prop
  | [] => True
  | (_, value) :: members => value.Legible ∧ LegibleMembers members

end

theorem tokens_punctuation {t : Token} (hspace : isSpace c = false)
    (h : scanToken? rest.length c rest = some (t, rest)) :
    tokens (some c :: rest) = t :: tokens rest :=
  tokens_cons hspace h (Nat.le_refl _)

theorem delimited_writeItems (items : List Json) (cs : List Char) :
    Delimited ((writeItems items cs).map some) := by
  cases items with
  | nil => exact .inr (.inl rfl)
  | cons item items => exact .inl rfl

theorem delimited_writeMembers (members : List (String × Json)) (cs : List Char) :
    Delimited ((writeMembers members cs).map some) := by
  cases members with
  | nil => exact .inr (.inr rfl)
  | cons member members => exact .inl rfl

mutual

/-- **A message is cut into its tokens**, in front of anything that may
come after it. -/
theorem tokens_write : ∀ (j : Json) (cs : List Char), j.Legible → Delimited (cs.map some) →
    tokens ((j.write cs).map some) = j.lex ++ tokens (cs.map some)
  | .null, cs, _, _ => tokens_cons rfl rfl (Nat.le_refl _)
  | .bool true, cs, _, _ => tokens_cons rfl rfl (Nat.le_refl _)
  | .bool false, cs, _, _ => tokens_cons rfl rfl (Nat.le_refl _)
  | .whole n, cs, _, hcs => by
    rw [write, List.map_append, tokens_number_append (tokens_wholeText n) hcs]
    rfl
  | .real negative rank, cs, hj, hcs => by
    obtain ⟨num, hnum⟩ := hj
    rw [write, List.map_append, tokens_number_append hnum hcs, lex, hnum]
    rfl
  | .string s, cs, _, _ => tokens_writeString s cs
  | .array [], cs, _, _ => by
    rw [write, List.map_cons, tokens_punctuation rfl rfl, List.map_cons, tokens_punctuation rfl rfl]
    rfl
  | .array (item :: items), cs, hj, hcs => by
    rw [write, List.map_cons, tokens_punctuation rfl rfl,
      tokens_write item _ hj.1 (delimited_writeItems items cs),
      tokens_writeItems items cs hj.2 hcs, lex, List.cons_append, List.append_assoc]
  | .object [], cs, _, _ => by
    rw [write, List.map_cons, tokens_punctuation rfl rfl, List.map_cons, tokens_punctuation rfl rfl]
    rfl
  | .object ((key, value) :: members), cs, hj, hcs => by
    rw [write, List.map_cons, tokens_punctuation rfl rfl, tokens_writeString, List.map_cons,
      tokens_punctuation rfl rfl, tokens_write value _ hj.1 (delimited_writeMembers members cs),
      tokens_writeMembers members cs hj.2 hcs, lex]
    simp only [List.cons_append, List.append_assoc]

theorem tokens_writeItems : ∀ (items : List Json) (cs : List Char), LegibleItems items →
    Delimited (cs.map some) →
    tokens ((writeItems items cs).map some) = lexItems items ++ tokens (cs.map some)
  | [], cs, _, _ => by
    rw [writeItems, List.map_cons, tokens_punctuation rfl rfl]
    rfl
  | item :: items, cs, hj, hcs => by
    rw [writeItems, List.map_cons, tokens_punctuation rfl rfl,
      tokens_write item _ hj.1 (delimited_writeItems items cs),
      tokens_writeItems items cs hj.2 hcs, lexItems, List.cons_append, List.append_assoc]

theorem tokens_writeMembers : ∀ (members : List (String × Json)) (cs : List Char),
    LegibleMembers members → Delimited (cs.map some) →
    tokens ((writeMembers members cs).map some) = lexMembers members ++ tokens (cs.map some)
  | [], cs, _, _ => by
    rw [writeMembers, List.map_cons, tokens_punctuation rfl rfl]
    rfl
  | (key, value) :: members, cs, hj, hcs => by
    rw [writeMembers, List.map_cons, tokens_punctuation rfl rfl, tokens_writeString, List.map_cons,
      tokens_punctuation rfl rfl, tokens_write value _ hj.1 (delimited_writeMembers members cs),
      tokens_writeMembers members cs hj.2 hcs, lexMembers]
    simp only [List.cons_append, List.append_assoc]

end

end Marginalia.Json
