import Marginalia.Proofs.Json.Node

/-!
# Json — a value inside a longer text

A value is read alike wherever it stands: neither the tokens that follow
nor more fuel change what its own tokens are read as (`Node.Spans`).
-/

namespace Marginalia.Json

open Text (Glyph)

variable {text rest r more : List Glyph} {c : Char} {fuel fuel' n : Nat} {t : Token}

/-! ## Values -/

namespace Node

variable {ts used : List Token} {root : Node} {items : List Node} {members : List Member}
variable {after : List Token}

/-- **Tokens that are one value**: with so much fuel or more they are read
as the value, whatever follows them. -/
structure Spans (fuel : Nat) (used : List Token) (root : Node) : Prop where
  sound : .stray ∉ used
  /-- No value starts with the end of an array. -/
  head : ∃ t ts, used = t :: ts ∧ t ≠ .closeArray
  read : ∀ fuel' more, fuel ≤ fuel' → Node.read fuel' (used ++ more) = (root, more)

/-- Tokens that are the items of an array, up to its end. -/
structure SpansItems (fuel : Nat) (used : List Token) (items : List Node) : Prop where
  sound : .stray ∉ used
  head : ∃ t ts, used = t :: ts ∧ t ≠ .closeArray
  read : ∀ fuel' more, fuel ≤ fuel' → readItems fuel' (used ++ more) = (items, true, more)

/-- Tokens that are the members of an object, up to its end. -/
structure SpansMembers (fuel : Nat) (used : List Token) (members : List Member) : Prop where
  sound : .stray ∉ used
  head : ∃ key ts, used = .string key :: ts
  read : ∀ fuel' more, fuel ≤ fuel' → readMembers fuel' (used ++ more) = (members, true, more)

/-- More fuel does no harm. -/
theorem Spans.mono (h : Spans fuel used root) (hfuel : fuel ≤ fuel') : Spans fuel' used root where
  sound := h.sound
  head := h.head
  read fuel' more hfuel' := h.read fuel' more (Nat.le_trans hfuel hfuel')

theorem Spans.of_flat {t : Token} (ht : t ≠ .stray ∧ t ≠ .closeArray)
    (h : ∀ fuel more, Node.read fuel (t :: more) = (root, more)) : Spans fuel [t] root where
  sound := by simpa using ht.1.symm
  head := ⟨t, [], rfl, ht.2⟩
  read fuel' more _ := h fuel' more

theorem Spans.of_items (h : SpansItems fuel used items) :
    Spans (fuel + 1) (.openArray :: used) (.array items true) where
  sound := by simpa using h.sound
  head := ⟨_, _, rfl, by decide⟩
  read fuel' more hfuel := by
    obtain ⟨fuel', rfl⟩ : ∃ n, fuel' = n + 1 := ⟨fuel' - 1, by omega⟩
    obtain ⟨t, ts, rfl, ht⟩ := h.head
    have hread := h.read fuel' more (by omega)
    rw [List.cons_append] at hread
    rw [List.cons_append, List.cons_append, read_openArray ht, hread]

theorem Spans.of_members (h : SpansMembers fuel used members) :
    Spans (fuel + 1) (.openObject :: used) (.object members true) where
  sound := by simpa using h.sound
  head := ⟨_, _, rfl, by decide⟩
  read fuel' more hfuel := by
    obtain ⟨fuel', rfl⟩ : ∃ n, fuel' = n + 1 := ⟨fuel' - 1, by omega⟩
    obtain ⟨key, ts, rfl⟩ := h.head
    have hread := h.read fuel' more (by omega)
    rw [List.cons_append] at hread
    simp only [List.cons_append, Node.read, hread]

/-- The last item ends at the bracket, -/
theorem Spans.last (h : Spans fuel used root) :
    SpansItems (fuel + 1) (used ++ [.closeArray]) [root] where
  sound := by simpa using h.sound
  head := by
    obtain ⟨t, ts, rfl, ht⟩ := h.head
    exact ⟨t, _, rfl, ht⟩
  read fuel' more hfuel := by
    obtain ⟨fuel', rfl⟩ : ∃ n, fuel' = n + 1 := ⟨fuel' - 1, by omega⟩
    rw [List.append_assoc, readItems, h.read fuel' _ (by omega)]
    rfl

/-- and any other at a comma. -/
theorem Spans.cons (h : Spans fuel used root) (hitems : SpansItems fuel after items) :
    SpansItems (fuel + 1) (used ++ .comma :: after) (root :: items) where
  sound := by simpa using ⟨h.sound, hitems.sound⟩
  head := by
    obtain ⟨t, ts, rfl, ht⟩ := h.head
    exact ⟨t, _, rfl, ht⟩
  read fuel' more hfuel := by
    obtain ⟨fuel', rfl⟩ : ∃ n, fuel' = n + 1 := ⟨fuel' - 1, by omega⟩
    rw [List.append_assoc, readItems, h.read fuel' _ (by omega), List.cons_append]
    simp only [hitems.read fuel' more (by omega)]

theorem Spans.lastMember (h : Spans fuel used root) (key : Option String) :
    SpansMembers (fuel + 1) (.string key :: .colon :: (used ++ [.closeObject])) [(key, root)] where
  sound := by simpa using h.sound
  head := ⟨key, _, rfl⟩
  read fuel' more hfuel := by
    obtain ⟨fuel', rfl⟩ : ∃ n, fuel' = n + 1 := ⟨fuel' - 1, by omega⟩
    simp only [List.cons_append, List.append_assoc, readMembers, h.read fuel' _ (by omega),
      List.nil_append]

theorem Spans.consMember (h : Spans fuel used root) (key : Option String)
    (hmembers : SpansMembers fuel after members) :
    SpansMembers (fuel + 1) (.string key :: .colon :: (used ++ .comma :: after))
      ((key, root) :: members) where
  sound := by simpa using ⟨h.sound, hmembers.sound⟩
  head := ⟨key, _, rfl⟩
  read fuel' more hfuel := by
    obtain ⟨fuel', rfl⟩ : ∃ n, fuel' = n + 1 := ⟨fuel' - 1, by omega⟩
    simp only [List.cons_append, List.append_assoc, readMembers, h.read fuel' _ (by omega),
      hmembers.read fuel' more (by omega)]

mutual

/-- **What was read whole spans the tokens that were taken for it.** -/
theorem exists_spans : ∀ (fuel : Nat) (ts : List Token) (root : Node) (rest : List Token),
    Node.read fuel ts = (root, rest) → root.whole = true →
      ∃ used, ts = used ++ rest ∧ Spans fuel used root
  | fuel, ts, root, rest, h, hroot => by
    unfold Node.read at h
    split at h
    · rename_i fuel ts
      split at h
      · cases h
        exact ⟨[.openArray, .closeArray], rfl, by decide, ⟨_, _, rfl, by decide⟩,
          fun fuel' more hfuel => by
            obtain ⟨fuel', rfl⟩ : ∃ n, fuel' = n + 1 := ⟨fuel' - 1, by omega⟩
            rfl⟩
      · cases hitems : readItems fuel ts with
        | mk items result =>
          obtain ⟨closed, rest'⟩ := result
          rw [hitems] at h
          cases h
          simp only [whole, Bool.and_eq_true] at hroot
          obtain ⟨rfl, hwhole⟩ := hroot
          obtain ⟨used, rfl, hused⟩ := exists_spansItems fuel ts items rest hitems hwhole
          exact ⟨.openArray :: used, rfl, .of_items hused⟩
    · rename_i fuel ts
      split at h
      · cases h
        exact ⟨[.openObject, .closeObject], rfl, by decide, ⟨_, _, rfl, by decide⟩,
          fun fuel' more hfuel => by
            obtain ⟨fuel', rfl⟩ : ∃ n, fuel' = n + 1 := ⟨fuel' - 1, by omega⟩
            rfl⟩
      · cases hmembers : readMembers fuel ts with
        | mk members result =>
          obtain ⟨closed, rest'⟩ := result
          rw [hmembers] at h
          cases h
          simp only [whole, Bool.and_eq_true] at hroot
          obtain ⟨rfl, hwhole⟩ := hroot
          obtain ⟨used, rfl, hused⟩ := exists_spansMembers fuel ts members rest hmembers hwhole
          exact ⟨.openObject :: used, rfl, .of_members hused⟩
    · cases h
      exact ⟨[.null], rfl, .of_flat (by decide) fun fuel _ => by cases fuel <;> rfl⟩
    · cases h
      exact ⟨[.bool _], rfl, .of_flat (by simp) fun fuel _ => by cases fuel <;> rfl⟩
    · cases h
      exact ⟨[.number _], rfl, .of_flat (by simp) fun fuel _ => by cases fuel <;> rfl⟩
    · cases h
      exact ⟨[.string _], rfl, .of_flat (by simp) fun fuel _ => by cases fuel <;> rfl⟩
    · cases h
      cases hroot
termination_by fuel => fuel

theorem exists_spansItems : ∀ (fuel : Nat) (ts : List Token) (items : List Node)
    (rest : List Token), readItems fuel ts = (items, true, rest) → wholeItems items = true →
      ∃ used, ts = used ++ rest ∧ SpansItems fuel used items
  | 0, ts, items, rest, h, _ => by cases h
  | fuel + 1, ts, items, rest, h, hwhole => by
    rw [readItems] at h
    cases hread : Node.read fuel ts with
    | mk item following =>
      simp only [hread] at h
      split at h
      · rename_i following
        cases hitems : readItems fuel following with
        | mk others result =>
          obtain ⟨closed, rest'⟩ := result
          rw [hitems] at h
          cases h
          simp only [wholeItems, Bool.and_eq_true] at hwhole
          obtain ⟨used, rfl, hused⟩ := exists_spans fuel ts item _ hread hwhole.1
          obtain ⟨after, rfl, hafter⟩ :=
            exists_spansItems fuel following others rest' hitems hwhole.2
          exact ⟨used ++ .comma :: after, by simp, hused.cons hafter⟩
      · cases h
        simp only [wholeItems, Bool.and_eq_true, and_true] at hwhole
        obtain ⟨used, rfl, hused⟩ := exists_spans fuel ts item _ hread hwhole
        exact ⟨used ++ [.closeArray], by simp, hused.last⟩
      · cases h
termination_by fuel => fuel

theorem exists_spansMembers : ∀ (fuel : Nat) (ts : List Token) (members : List Member)
    (rest : List Token), readMembers fuel ts = (members, true, rest) →
      wholeMembers members = true → ∃ used, ts = used ++ rest ∧ SpansMembers fuel used members
  | fuel, ts, members, rest, h, hwhole => by
    unfold readMembers at h
    split at h
    · cases h
    · rename_i fuel key ts
      cases hread : Node.read fuel ts with
      | mk value following =>
        simp only [hread] at h
        split at h
        · rename_i following
          cases hmembers : readMembers fuel following with
          | mk others result =>
            obtain ⟨closed, rest'⟩ := result
            rw [hmembers] at h
            cases h
            simp only [wholeMembers, Bool.and_eq_true] at hwhole
            obtain ⟨used, rfl, hused⟩ := exists_spans fuel ts value _ hread hwhole.1
            obtain ⟨after, rfl, hafter⟩ :=
              exists_spansMembers fuel following others rest' hmembers hwhole.2
            exact ⟨.string key :: .colon :: (used ++ .comma :: after), by simp,
              hused.consMember key hafter⟩
        · cases h
          simp only [wholeMembers, Bool.and_eq_true, and_true] at hwhole
          obtain ⟨used, rfl, hused⟩ := exists_spans fuel ts value _ hread hwhole
          exact ⟨.string key :: .colon :: (used ++ [.closeObject]), by simp, hused.lastMember key⟩
        · cases h
    · cases h
    · cases h
termination_by fuel => fuel

end

end Node

/-! ## Texts -/

/-- **The text is one value**, brought to its end. What its strings and
numbers say is not looked into. -/
def IsValue (text : List Glyph) : Prop :=
  (Node.ofText text).2 = true ∧ (Node.ofText text).1.whole = true

instance (text : List Glyph) : Decidable (IsValue text) := inferInstanceAs (Decidable (_ ∧ _))

/-- All tokens of the text are the value. -/
theorem IsValue.spans (h : IsValue text) :
    Node.Spans (2 * (tokens text).length) (tokens text) (Node.ofText text).1 := by
  obtain ⟨hended, hwhole⟩ := h
  have hrest : (Node.read (2 * (tokens text).length) (tokens text)).2 = [] :=
    List.isEmpty_iff.mp hended
  obtain ⟨used, hused, hspans⟩ := Node.exists_spans _ (tokens text) _ _ rfl hwhole
  rw [hrest, List.append_nil] at hused
  subst hused
  exact hspans

/-- A text that is cut into the tokens of a value is read as the value. -/
theorem Node.Spans.ofText {used : List Token} {root : Node} (h : Spans fuel used root)
    (htokens : tokens text = used) (hfuel : fuel ≤ 2 * used.length) :
    Node.ofText text = (root, true) := by
  have hread := h.read (2 * used.length) [] hfuel
  rw [List.append_nil] at hread
  simp only [Node.ofText, htokens, hread, List.isEmpty_nil]

/-- A string is a token of its own. -/
theorem eq_string_of_read {ts : List Token} {s : Option String}
    (h : Node.read fuel ts = (.string s, [])) : ts = [.string s] := by
  unfold Node.read at h
  split at h
  · split at h <;> cases h
  · split at h <;> cases h
  all_goals cases h
  rfl

/-- A text is one string exactly if it is read as one. -/
theorem IsValue.tokens_eq_string_iff (h : IsValue text) (s : Option String) :
    tokens text = [.string s] ↔ (Node.ofText text).1 = .string s := by
  constructor
  · intro htokens
    simp only [Node.ofText, htokens]
    rfl
  · intro hroot
    have hread := h.spans.read _ [] (Nat.le_refl _)
    rw [List.append_nil, hroot] at hread
    exact eq_string_of_read hread

/-- And likewise one number. -/
theorem IsValue.tokens_eq_number_iff (h : IsValue text) (num : Numeral) :
    tokens text = [.number num] ↔ (Node.ofText text).1 = .number num := by
  constructor
  · intro htokens
    simp only [Node.ofText, htokens]
    rfl
  · intro hroot
    have hread := h.spans.read _ [] (Nat.le_refl _)
    rw [List.append_nil, hroot] at hread
    exact eq_number_of_read hread

end Marginalia.Json
