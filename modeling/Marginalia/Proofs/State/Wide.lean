import Marginalia.Proofs.Json.Beside
import Marginalia.Proofs.Json.Literal
import Marginalia.Proofs.State.Codec

/-!
# State — whole numbers of any width

A whole number is given as a string of digits, with a sign or
underscores, or as a literal (`Denotes`); the decoder takes exactly these
and takes each for the number that it denotes
(`Json.Decoder.wide_eq_ok_iff`, `denotes_ofText_iff`). A literal that is
too wide, or has a fraction or an exponent, is refused and not rounded.

What is decoded is written in one way, its decimal string. So two
spellings are written alike exactly if they denote the same number
(`Json.IsValue.lossless`).
-/

namespace Marginalia

open Json (Framed FramedNode IsValue Node)

variable {text core front back cs : List Char} {n : Nat} {k : Int} {c : Char}

/-! ## Digits, signs and white space -/

/-- **Digits as people write them**: underscores may be anywhere but
first. -/
structure SpellsNat (text : List Char) (n : Nat) : Prop where
  first : ∃ c cs, text = c :: cs ∧ c.isDigit = true
  digit : ∀ c ∈ text, c.isDigit = true ∨ c = '_'
  value : Nat.ofDigitChars 10 (text.filter Char.isDigit) 0 = n

/-- Digits with at most one sign before them. -/
inductive SpellsInt : List Char → Int → Prop
  | bare {text : List Char} {n : Nat} : SpellsNat text n → SpellsInt text n
  | plus {text : List Char} {n : Nat} : SpellsNat text n → SpellsInt ('+' :: text) n
  | minus {text : List Char} {n : Nat} : SpellsNat text n → SpellsInt ('-' :: text) (-(n : Int))

/-- **What a string spells**, whatever white space is at its ends. -/
inductive Spells : List Char → Int → Prop
  | between {front core back : List Char} {k : Int} :
      (∀ c ∈ front, Text.isBlank c = true) → (∀ c ∈ back, Text.isBlank c = true) →
      SpellsInt core k → Spells (front ++ core ++ back) k

theorem readDigits?_eq_some_iff : readDigits? text = some n ↔ SpellsNat text n := by
  have hfilter (h : ∀ c ∈ text, c.isDigit = true ∨ c = '_') :
      text.filter (· ≠ '_') = text.filter Char.isDigit := by
    refine List.filter_congr fun c hc => ?_
    rcases h c hc with hdigit | rfl
    · have hne : c ≠ '_' := by
        rintro rfl
        exact absurd hdigit (by decide)
      simp [hdigit, hne]
    · decide
  cases text with
  | nil =>
    constructor
    · intro h
      cases h
    · rintro ⟨⟨c, cs, hnil, -⟩, -, -⟩
      cases hnil
  | cons c cs =>
    simp only [readDigits?, Option.ite_none_right_eq_some, Bool.and_eq_true, List.all_eq_true,
      Bool.or_eq_true, decide_eq_true_eq, Option.some.injEq]
    constructor
    · rintro ⟨⟨hfirst, hdigit⟩, hvalue⟩
      exact ⟨⟨c, cs, rfl, hfirst⟩, hdigit, by rw [← hfilter hdigit, hvalue]⟩
    · rintro ⟨⟨c', cs', heq, hfirst⟩, hdigit, hvalue⟩
      cases heq
      exact ⟨⟨hfirst, hdigit⟩, by rw [hfilter hdigit, hvalue]⟩

theorem readWhole?_eq_some_iff : readWhole? text = some k ↔ SpellsInt text k := by
  constructor
  · intro h
    unfold readWhole? at h
    split at h
    · rename_i ds
      cases hread : readDigits? ds <;> rw [hread] at h <;> cases h
      exact .minus (readDigits?_eq_some_iff.mp hread)
    · rename_i ds
      cases hread : readDigits? ds <;> rw [hread] at h <;> cases h
      exact .plus (readDigits?_eq_some_iff.mp hread)
    · cases hread : readDigits? text <;> rw [hread] at h <;> cases h
      exact .bare (readDigits?_eq_some_iff.mp hread)
  · intro h
    cases h with
    | @bare _ n h =>
      obtain ⟨c, cs, rfl, hc⟩ := h.first
      have hread := readDigits?_eq_some_iff.mpr h
      unfold readWhole?
      split
      · rename_i heq
        cases heq
        exact absurd hc (by decide)
      · rename_i heq
        cases heq
        exact absurd hc (by decide)
      · rw [hread]
        rfl
    | plus h =>
      rw [readWhole?, readDigits?_eq_some_iff.mpr h]
      rfl
    | minus h =>
      rw [readWhole?, readDigits?_eq_some_iff.mpr h]
      rfl

/-- No character of a spelling is white space. -/
theorem SpellsInt.not_blank (h : SpellsInt text k) : ∀ c ∈ text, Text.isBlank c = false := by
  have hdigits {ds : List Char} {n : Nat} (h : SpellsNat ds n) :
      ∀ c ∈ ds, Text.isBlank c = false := by
    intro c hc
    rcases h.digit c hc with hdigit | rfl
    · exact Text.isBlank_of_isDigit hdigit
    · decide
  cases h with
  | bare h => exact hdigits h
  | plus h => exact List.forall_mem_cons.mpr ⟨by decide, hdigits h⟩
  | minus h => exact List.forall_mem_cons.mpr ⟨by decide, hdigits h⟩

theorem SpellsInt.nonempty (h : SpellsInt text k) : text ≠ [] := by
  rintro rfl
  cases h with
  | bare h =>
    obtain ⟨c, cs, hnil, -⟩ := h.first
    cases hnil

/-- **White space at the ends is taken off.** -/
theorem Text.trim_between (hfront : ∀ c ∈ front, isBlank c = true)
    (hback : ∀ c ∈ back, isBlank c = true) (hcore : ∀ c ∈ core, isBlank c = false)
    (hne : core ≠ []) : trim (front ++ core ++ back) = core := by
  have hdrop (spaces cs more : List Char) (hspaces : ∀ c ∈ spaces, isBlank c = true)
      (hcs : ∀ c ∈ cs, isBlank c = false) (hcs' : cs ≠ []) :
      (spaces ++ (cs ++ more)).dropWhile isBlank = cs ++ more := by
    obtain ⟨c, cs, rfl⟩ := List.exists_cons_of_ne_nil hcs'
    have hc := hcs c List.mem_cons_self
    rw [List.dropWhile_append_of_pos hspaces, List.cons_append,
      List.dropWhile_cons_of_neg (by simp [hc])]
  have hlast := hdrop back.reverse core.reverse [] (by simpa using hback) (by simpa using hcore)
    (by simpa using hne)
  rw [List.append_nil] at hlast
  rw [trim, List.append_assoc, hdrop front core back hfront hcore hne, List.reverse_append, hlast,
    List.reverse_reverse]

theorem Text.exists_trim (text : List Char) :
    ∃ front back, text = front ++ trim text ++ back ∧ (∀ c ∈ front, isBlank c = true) ∧
      ∀ c ∈ back, isBlank c = true := by
  refine ⟨text.takeWhile isBlank,
    (((text.dropWhile isBlank).reverse.takeWhile isBlank)).reverse, ?_,
    fun c hc => List.mem_takeWhile_imp hc, fun c hc => ?_⟩
  · rw [trim, List.append_assoc, ← List.reverse_append, List.takeWhile_append_dropWhile,
      List.reverse_reverse, List.takeWhile_append_dropWhile]
  · exact List.mem_takeWhile_imp (List.mem_reverse.mp hc)

/-- **A string is read as what it spells.** -/
theorem readWhole?_trim_iff : readWhole? (Text.trim text) = some k ↔ Spells text k := by
  rw [readWhole?_eq_some_iff]
  constructor
  · intro h
    obtain ⟨front, back, htext, hfront, hback⟩ := Text.exists_trim text
    rw [htext]
    exact .between hfront hback h
  · rintro ⟨hfront, hback, h⟩
    rwa [Text.trim_between hfront hback h.not_blank h.nonempty]

/-! ## What a message denotes -/

/-- **The whole number that a text denotes** as a value of a message: a
string that spells it, or its literal. -/
inductive Denotes (text : String) (k : Int) : Prop
  | string {s : String} :
      Json.tokens (Text.glyphsOfText text) = [.string (some s)] → Spells s.toList k →
      Denotes text k
  | literal {front literal back : List Char} :
      text.toList = front ++ literal ++ back → (∀ c ∈ front, Json.isSpace c = true) →
      (∀ c ∈ back, Json.isSpace c = true) → Literal literal k → Denotes text k

namespace Json

/-- The whole number that a value as read denotes. -/
inductive Node.Denotes : Node → Int → Prop
  | string {s : String} {k : Int} : Spells s.toList k → Denotes (.string (some s)) k
  | number {num : Numeral} {k : Int} : num.whole? = some k → Denotes (.number num) k

/-- Reading the text keeps what it denotes. -/
theorem denotes_ofText_iff {text : String} (h : IsValue (Text.glyphsOfText text)) :
    (Node.ofText (Text.glyphsOfText text)).1.Denotes k ↔ Marginalia.Denotes text k := by
  constructor
  · intro hroot
    generalize hread : (Node.ofText (Text.glyphsOfText text)).1 = root at hroot
    cases hroot with
    | string hspells => exact .string ((h.tokens_eq_string_iff _).mpr hread) hspells
    | number hwhole =>
      obtain ⟨front, literal, back, htext, hfront, hback, hliteral⟩ :=
        exists_literal ((h.tokens_eq_number_iff _).mpr hread) hwhole
      exact .literal htext hfront hback hliteral
  · rintro (⟨htokens, hspells⟩ | ⟨htext, hfront, hback, hliteral⟩)
    · rw [(h.tokens_eq_string_iff _).mp htokens]
      exact .string hspells
    · obtain ⟨num, htokens, hwhole⟩ := tokens_literal hliteral hfront hback
      rw [← htext] at htokens
      rw [(h.tokens_eq_number_iff num).mp htokens]
      exact .number hwhole

namespace Decoder

variable {p : Place} {root : Node} {room : Nat}

/-- **A whole number is decoded as what it denotes, and nothing else is
decoded.** -/
theorem wide_eq_ok_iff : wide p root = .ok k ↔ root.Denotes k := by
  constructor
  · intro h
    unfold wide at h
    split at h
    · split at h
      · rename_i k' hwhole
        cases h
        exact .number hwhole
      · cases h
    · split at h
      · rename_i k' hread
        cases h
        exact .string (readWhole?_trim_iff.mp hread)
      · cases h
    · cases h
  · rintro (hspells | hwhole)
    · simp only [wide, readWhole?_trim_iff.mpr hspells]
    · simp only [wide, hwhole]

theorem wideNat_eq_ok_iff : wideNat p root = .ok n ↔ root.Denotes n := by
  rw [← wide_eq_ok_iff (p := p)]
  unfold wideNat check
  cases h : wide p root with
  | error fault => simp
  | ok k =>
    dsimp only
    split
    · rename_i hpos
      split at hpos
      · cases hpos
      · simp only [reduceCtorEq, Except.ok.injEq, false_iff]
        omega
    · rename_i hpos
      split at hpos
      · cases hpos
        simp only [Except.ok.injEq]
        omega
      · cases hpos

/-- What denotes a number has no fault of its own. -/
theorem holdAt_of_denotes (h : root.Denotes k) (p : Place) : holdAt p root = .ok () := by
  have hhold : hold p.room root = .ok () := by
    cases h with
    | string _ => rfl
    | @number num _ hwhole =>
      have hnumber : num.number? = some (.whole k) := by
        rw [Numeral.number?, hwhole]
      simp only [hold, hnumber, Option.isSome_some, if_true]
      rfl
  rw [holdAt, hhold]
  split <;> rfl

end Decoder

end Json

/-! ## Messages of whole numbers -/

/-- The kinds of values that are whole numbers. -/
inductive WideKind where
  | int
  | uint

namespace WideKind

def name : WideKind → String
  | int => "Int"
  | uint => "Uint"

/-- The value of a kind that is this number; only one kind has the
negative ones. -/
def value? : WideKind → Int → Option Value
  | int, k => some (.int k)
  | uint, k => if 0 ≤ k then some (.uint k.toNat) else none

/-- How the kind is decoded. -/
def decoder : WideKind → Json.Decoder Value
  | int => .map .int .wide
  | uint => .map .uint .wideNat

variable {w : WideKind} {v : Value} {p : Json.Place} {root : Node}

theorem kindOf_name (w : WideKind) (inner : Json.Decoder Value) :
    Json.Decoder.kindOf (Value.kinds inner) w.name = .ok (w.name, .single w.decoder) := by
  cases w <;> rfl

/-- No character of a name is escaped. -/
theorem escape_name (w : WideKind) : w.name.toList.flatMap Json.escapeChar = w.name.toList := by
  cases w <;> decide

theorem decoder_eq_ok_iff :
    w.decoder p root = .ok v ↔ ∃ k, root.Denotes k ∧ w.value? k = some v := by
  cases w with
  | int =>
    simp only [decoder, Json.Decoder.map, value?, Option.some.injEq,
      ← Json.Decoder.wide_eq_ok_iff (p := p)]
    cases Json.Decoder.wide p root <;> simp [Except.map]
  | uint =>
    simp only [decoder, Json.Decoder.map, value?, Option.ite_none_right_eq_some, Option.some.injEq]
    constructor
    · intro h
      cases hread : Json.Decoder.wideNat p root with
      | error fault =>
        rw [hread] at h
        cases h
      | ok n =>
        rw [hread] at h
        cases h
        exact ⟨n, Json.Decoder.wideNat_eq_ok_iff.mp hread, by omega, rfl⟩
    · rintro ⟨k, hroot, hpos, rfl⟩
      have hk : ((k.toNat : Nat) : Int) = k := Int.toNat_of_nonneg hpos
      rw [← hk] at hroot
      rw [Json.Decoder.wideNat_eq_ok_iff.mpr hroot]
      rfl

end WideKind

/-! ## Decoding and encoding -/

namespace WideKind

variable {w : WideKind} {v v' : Value} {text message : String}

/-- **At any place a whole number is decoded as what it denotes**, if
that is a number of the kind. -/
theorem decoder_framed {root found : Node} (h : FramedNode w.name root found)
    {p : Json.Place} (hp : 0 < p.room) :
    Value.decoder p found = .ok v ↔ ∃ k, root.Denotes k ∧ w.value? k = some v := by
  obtain ⟨room, held⟩ := p
  obtain ⟨room, rfl⟩ : ∃ n, room = n + 1 := ⟨room - 1, by simp only at hp; omega⟩
  rw [Value.decoder, Json.Decoder.fix, Json.Decoder.unfoldTimes]
  cases h with
  | typeFirst => rw [Json.Decoder.beside_typeFirst (w.kindOf_name _), decoder_eq_ok_iff]
  | pair => rw [Json.Decoder.beside_pair (w.kindOf_name _), decoder_eq_ok_iff]
  | valueFirst =>
    rw [Json.Decoder.beside_valueFirst (w.kindOf_name _)]
    constructor
    · intro hok
      cases hhold : Json.Decoder.holdAt ⟨room, held⟩ root with
      | error fault =>
        rw [hhold] at hok
        cases hok
      | ok u =>
        rw [hhold] at hok
        exact decoder_eq_ok_iff.mp hok
    · rintro ⟨k, hroot, hv⟩
      rw [Json.Decoder.holdAt_of_denotes hroot]
      exact decoder_eq_ok_iff.mpr ⟨k, hroot, hv⟩

/-- **So a message is decoded as what the text in it denotes.** -/
theorem decode_eq_ok_iff (h : Framed w.name text message)
    (htext : IsValue (Text.glyphsOfText text)) :
    Value.decode message.toUTF8 = .ok v ↔ ∃ k, Denotes text k ∧ w.value? k = some v := by
  obtain ⟨found, hfound, hread⟩ := h.ofText w.escape_name htext
  have hdecode : Value.decode message.toUTF8 = .ok v ↔ Value.decoder .top found = .ok v := by
    rw [Value.decode, Text.glyphs_toUTF8]
    constructor
    · intro hok
      have hroot := (Json.Decoder.decode_eq_ok hok).1
      rwa [hread] at hroot
    · intro hok
      simp only [Json.decode, hread, hok, if_true]
  rw [hdecode, decoder_framed hfound (by decide)]
  simp only [Json.denotes_ofText_iff htext]

/-- A decimal string has no escapes. -/
theorem escape_toString (k : Int) :
    (toString k).toList.flatMap Json.escapeChar = (toString k).toList := by
  have hself {cs : List Char} (h : ∀ c ∈ cs, Json.escapeChar c = [c]) :
      cs.flatMap Json.escapeChar = cs := by
    rw [List.flatMap_congr h, List.flatMap_singleton']
  have hdigit (n : Nat) : ∀ c ∈ Nat.toDigits 10 n, Json.escapeChar c = [c] := by
    intro c hc
    have hdigit := isDigit_toDigits n c hc
    have hne (d : Char) (hd : d.isDigit = false) : c ≠ d := by
      rintro rfl
      rw [hd] at hdigit
      cases hdigit
    have hvisible : ¬ c.toNat < 0x20 := by
      have hlow := (Char.isDigit_iff_toNat.mp hdigit).1
      simp only [Char.reduceToNat] at hlow
      omega
    rw [Json.escapeChar, if_neg (hne _ (by decide)), if_neg (hne _ (by decide)),
      if_neg (hne _ (by decide)), if_neg (hne _ (by decide)), if_neg (hne _ (by decide)),
      if_neg (hne _ (by decide)), if_neg (hne _ (by decide)), if_neg hvisible]
  rw [toList_toString]
  split
  · exact hself (List.forall_mem_cons.mpr ⟨by decide, hdigit k.natAbs⟩)
  · exact hself (hdigit k.natAbs)

/-- **A whole number is written as its decimal string.** -/
theorem encode_eq {k : Int} (h : w.value? k = some v) :
    v.encode = "\x7b\"type\":\"" ++ w.name ++ "\",\"value\":\"" ++ toString k ++ "\"\x7d" := by
  have hjson : v.toJson = .tagged w.name (.string (toString k)) := by
    cases w with
    | int =>
      cases h
      rfl
    | uint =>
      obtain ⟨hpos, hv⟩ := Option.ite_none_right_eq_some.mp h
      cases hv
      have hk : ((k.toNat : Nat) : Int) = k := Int.toNat_of_nonneg hpos
      rw [← hk]
      rfl
  have htype : "type".toList.flatMap Json.escapeChar = "type".toList := by decide
  have hlabel : "value".toList.flatMap Json.escapeChar = "value".toList := by decide
  refine String.toList_inj.mp ?_
  rw [Value.encode, hjson]
  simp only [Json.tagged, Json.text, Json.write, Json.writeMembers, Json.writeString, htype, hlabel,
    escape_name, escape_toString]
  simp

/-- So numbers that are written alike are the same. -/
theorem encode_inj {k k' : Int} (h : w.value? k = some v) (h' : w.value? k' = some v') :
    v.encode = v'.encode ↔ k = k' := by
  constructor
  · intro hsame
    rw [encode_eq h, encode_eq h', String.append_left_inj, String.append_right_inj] at hsame
    have hread := readWhole?_toString k
    rw [hsame, readWhole?_toString k'] at hread
    exact (Option.some.inj hread).symm
  · rintro rfl
    rw [h] at h'
    cases h'
    rfl

end WideKind

/-! ## Together -/

/-- **Whole numbers are lossless** in a message that has this text in
their place. -/
structure Lossless (text : String) : Prop where
  /-- At any place a number is decoded as what it denotes. -/
  placed : ∀ w root found, FramedNode (WideKind.name w) root found → ∀ p : Json.Place,
    0 < p.room → ∀ v,
      Value.decoder p found = .ok v ↔ ∃ k, root.Denotes k ∧ w.value? k = some v
  /-- What is decoded of a whole message is the number that the text denotes, -/
  decoded : ∀ w message, Framed (WideKind.name w) text message → ∀ v,
    Value.decode message.toUTF8 = .ok v ↔ ∃ k, Denotes text k ∧ w.value? k = some v
  /-- which is one at most. -/
  unique : ∀ k k', Denotes text k → Denotes text k' → k = k'
  /-- Any other text is refused. -/
  refused : ∀ w message, Framed (WideKind.name w) text message →
    (∀ k, Denotes text k → w.value? k = none) →
      ∃ fault, Value.decode message.toUTF8 = .error fault
  /-- The number is written in one way, as its decimal string, -/
  written : ∀ w k v, WideKind.value? w k = some v →
    v.encode = "\x7b\"type\":\"" ++ w.name ++ "\",\"value\":\"" ++ toString k ++ "\"\x7d"
  /-- so another text is written alike exactly if it denotes the same. -/
  respelled : ∀ text', IsValue (Text.glyphsOfText text') → ∀ w message message' v v',
    Framed (WideKind.name w) text message → Framed w.name text' message' →
    Value.decode message.toUTF8 = .ok v → Value.decode message'.toUTF8 = .ok v' →
      (v.encode = v'.encode ↔ ∃ k, Denotes text k ∧ Denotes text' k)

namespace Json

/-- No text denotes two numbers. -/
theorem IsValue.denotes_unique {text : String} (h : IsValue (Text.glyphsOfText text)) {k k' : Int}
    (hk : Marginalia.Denotes text k) (hk' : Marginalia.Denotes text k') : k = k' := by
  -- the decoder takes the text for both, and it is a function
  have hread {k : Int} (hk : Marginalia.Denotes text k) :
      Decoder.wide .top (Node.ofText (Text.glyphsOfText text)).1 = .ok k :=
    Decoder.wide_eq_ok_iff.mpr ((denotes_ofText_iff h).mpr hk)
  exact Except.ok.inj ((hread hk).symm.trans (hread hk'))

/-- **Whole numbers are lossless, whatever value a text is.** -/
theorem IsValue.lossless {text : String} (h : IsValue (Text.glyphsOfText text)) :
    Lossless text where
  placed w root found hfound p hp v := WideKind.decoder_framed hfound hp
  decoded w message hmessage v := WideKind.decode_eq_ok_iff hmessage h
  unique k k' := h.denotes_unique
  refused w message hmessage hnone := by
    cases hdecode : Value.decode message.toUTF8 with
    | error fault => exact ⟨fault, rfl⟩
    | ok v =>
      obtain ⟨k, hk, hv⟩ := (WideKind.decode_eq_ok_iff hmessage h).mp hdecode
      rw [hnone k hk] at hv
      cases hv
  written w k v := WideKind.encode_eq
  respelled text' h' w message message' v v' hmessage hmessage' hv hv' := by
    obtain ⟨k, hk, hvalue⟩ := (WideKind.decode_eq_ok_iff hmessage h).mp hv
    obtain ⟨k', hk', hvalue'⟩ := (WideKind.decode_eq_ok_iff hmessage' h').mp hv'
    rw [WideKind.encode_inj hvalue hvalue']
    constructor
    · rintro rfl
      exact ⟨k, hk, hk'⟩
    · rintro ⟨k₀, hk₀, hk₀'⟩
      rw [h.denotes_unique hk hk₀, h'.denotes_unique hk' hk₀']

/-- A string with white space, a sign and underscores; in the same place
the widest literals are taken, and those that a double would be taken for
are not. -/
theorem IsValue.lossless_of_spellings :
    (IsValue (Text.glyphsOfText "\"\\n +1_0_\"") ∧ Lossless "\"\\n +1_0_\"") ∧
      ["\"\\n +1_0_\"", "18446744073709551615", " -9223372036854775808 ", "\"-0\""].map
          (fun text => Decoder.wide .top (Node.ofText (Text.glyphsOfText text)).1) =
        [.ok 10, .ok 18446744073709551615, .ok (-9223372036854775808), .ok 0] ∧
      ∀ text ∈ ["18446744073709551616", "-9223372036854775809", "-0", "1.0", "1e2", "\"-+1\"",
          "\"_1\"", "\"\"", "null", "[1]"],
        IsValue (Text.glyphsOfText text) ∧
          (Decoder.wide .top (Node.ofText (Text.glyphsOfText text)).1).isOk = false := by
  have htext : IsValue (Text.glyphsOfText "\"\\n +1_0_\"") := by decide +kernel
  exact ⟨⟨htext, htext.lossless⟩, by decide +kernel, by decide +kernel⟩

end Json

end Marginalia
