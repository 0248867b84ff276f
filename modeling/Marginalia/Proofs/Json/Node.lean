import Marginalia.Proofs.Json.Printer
import Marginalia.Json.Node

/-!
# Json — what is written is read as it was meant

The text of a message is read as the tree of the message, all of it
(`Json.ofText_text`).
-/

namespace Marginalia.Json

mutual

/-- What a message is read as. -/
def node : Json → Node
  | .null => .null
  | .bool b => .bool b
  | .whole n => .number (wholeNumeral n)
  | .real negative rank =>
    match tokens ((Number.finiteText Number.messageStyle negative rank).map some) with
    | [.number num] => .number num
    | _ => .broken
  | .string s => .string (some s)
  | .array items => .array (nodeItems items) true
  | .object members => .object (nodeMembers members) true

def nodeItems : List Json → List Node
  | [] => []
  | item :: items => item.node :: nodeItems items

def nodeMembers : List (String × Json) → List Member
  | [] => []
  | (key, value) :: members => (some key, value.node) :: nodeMembers members

end

variable {j item : Json} {key : String} {fuel : Nat} {rest : List Token}

/-- No value starts with the end of an array. -/
theorem lex_eq_cons (h : j.Legible) : ∃ t ts, j.lex = t :: ts ∧ t ≠ .closeArray := by
  cases j with
  | real negative rank =>
    obtain ⟨num, hnum⟩ := h
    exact ⟨.number num, [], by rw [lex, hnum], by simp⟩
  | array items => cases items <;> exact ⟨.openArray, _, by rw [lex], by simp⟩
  | object members =>
    cases members with
    | nil => exact ⟨.openObject, _, by rw [lex], by simp⟩
    | cons member members => exact ⟨.openObject, _, by rw [lex], by simp⟩
  | _ => exact ⟨_, [], by rw [lex], by simp⟩

/-- An array that is not empty is read item by item. -/
theorem read_openArray {t : Token} (h : t ≠ .closeArray) (ts : List Token) :
    Node.read (fuel + 1) (.openArray :: t :: ts) =
      (.array (Node.readItems fuel (t :: ts)).1 (Node.readItems fuel (t :: ts)).2.1,
        (Node.readItems fuel (t :: ts)).2.2) := by
  rw [Node.read]
  intro rest heq
  exact h (List.cons.inj heq).1

mutual

-- Every bracket and every item takes fuel, so the induction is on the fuel
-- and not on the message.

/-- **The tokens of a message are read as the message**, and no more of
what follows. -/
theorem read_lex : ∀ (j : Json) (fuel : Nat) (rest : List Token), j.Legible →
    2 * j.lex.length ≤ fuel → Node.read fuel (j.lex ++ rest) = (j.node, rest)
  | .null, fuel, rest, _, _ => by cases fuel <;> rfl
  | .bool b, fuel, rest, _, _ => by cases fuel <;> rfl
  | .whole n, fuel, rest, _, _ => by cases fuel <;> rfl
  | .real negative rank, fuel, rest, hj, _ => by
    obtain ⟨num, hnum⟩ := hj
    rw [lex, node, hnum]
    cases fuel <;> rfl
  | .string s, fuel, rest, _, _ => by cases fuel <;> rfl
  | .array [], fuel, rest, _, hfuel => by
    obtain ⟨fuel, rfl⟩ : ∃ n, fuel = n + 1 := ⟨fuel - 1, by simp [lex] at hfuel; omega⟩
    rfl
  | .array (item :: items), fuel, rest, hj, hfuel => by
    rw [lex, List.length_cons, List.length_append] at hfuel
    obtain ⟨fuel, rfl⟩ : ∃ n, fuel = n + 1 := ⟨fuel - 1, by omega⟩
    have hitems := readItems_lex item items fuel rest hj.1 hj.2 (by omega)
    obtain ⟨t, ts, hlex, ht⟩ := lex_eq_cons hj.1
    rw [hlex, List.cons_append] at hitems
    rw [lex, hlex, List.cons_append, List.append_assoc, List.cons_append, read_openArray ht,
      hitems, node, nodeItems]
  | .object [], fuel, rest, _, hfuel => by
    obtain ⟨fuel, rfl⟩ : ∃ n, fuel = n + 1 := ⟨fuel - 1, by simp [lex] at hfuel; omega⟩
    rfl
  | .object ((key, value) :: members), fuel, rest, hj, hfuel => by
    rw [lex, List.length_cons, List.length_cons, List.length_cons, List.length_append] at hfuel
    obtain ⟨fuel, rfl⟩ : ∃ n, fuel = n + 1 := ⟨fuel - 1, by omega⟩
    have hmembers := readMembers_lex key value members fuel rest hj.1 hj.2 (by omega)
    rw [lex, node, nodeMembers]
    simp only [List.cons_append, List.append_assoc, Node.read, hmembers]
termination_by _ fuel => fuel

theorem readItems_lex : ∀ (item : Json) (items : List Json) (fuel : Nat) (rest : List Token),
    item.Legible → LegibleItems items →
    2 * (item.lex.length + (lexItems items).length) ≤ fuel →
    Node.readItems fuel (item.lex ++ (lexItems items ++ rest)) =
      (item.node :: nodeItems items, true, rest)
  | item, [], fuel, rest, hitem, _, hfuel => by
    rw [lexItems, List.length_singleton] at hfuel
    obtain ⟨fuel, rfl⟩ : ∃ n, fuel = n + 1 := ⟨fuel - 1, by omega⟩
    rw [Node.readItems, read_lex item fuel _ hitem (by omega)]
    rfl
  | item, next :: items, fuel, rest, hitem, hitems, hfuel => by
    rw [lexItems, List.length_cons, List.length_append] at hfuel
    obtain ⟨fuel, rfl⟩ : ∃ n, fuel = n + 1 := ⟨fuel - 1, by omega⟩
    rw [Node.readItems, read_lex item fuel _ hitem (by omega), lexItems, List.cons_append,
      List.append_assoc]
    simp only [readItems_lex next items fuel rest hitems.1 hitems.2 (by omega), nodeItems]
termination_by _ _ fuel => fuel

theorem readMembers_lex : ∀ (key : String) (value : Json) (members : List (String × Json))
    (fuel : Nat) (rest : List Token), value.Legible → LegibleMembers members →
    2 * (value.lex.length + (lexMembers members).length) ≤ fuel →
    Node.readMembers fuel (.string (some key) :: .colon ::
        (value.lex ++ (lexMembers members ++ rest))) =
      ((some key, value.node) :: nodeMembers members, true, rest)
  | key, value, [], fuel, rest, hvalue, _, hfuel => by
    rw [lexMembers, List.length_singleton] at hfuel
    obtain ⟨fuel, rfl⟩ : ∃ n, fuel = n + 1 := ⟨fuel - 1, by omega⟩
    rw [Node.readMembers, read_lex value fuel _ hvalue (by omega)]
    rfl
  | key, value, (name, next) :: members, fuel, rest, hvalue, hmembers, hfuel => by
    rw [lexMembers, List.length_cons, List.length_cons, List.length_cons, List.length_append]
      at hfuel
    obtain ⟨fuel, rfl⟩ : ∃ n, fuel = n + 1 := ⟨fuel - 1, by omega⟩
    rw [Node.readMembers, read_lex value fuel _ hvalue (by omega), lexMembers]
    simp only [List.cons_append, List.append_assoc,
      readMembers_lex name next members fuel rest hmembers.1 hmembers.2 (by omega), nodeMembers]
termination_by _ _ _ fuel => fuel

end

/-- A number is a token of its own. -/
theorem eq_number_of_read {ts : List Token} {num : Numeral}
    (h : Node.read fuel ts = (.number num, [])) : ts = [.number num] := by
  unfold Node.read at h
  split at h
  · split at h <;> cases h
  · split at h <;> cases h
  all_goals cases h
  rfl

/-- **The text of a message is read as the message**, to its end. -/
theorem ofText_text (h : j.Legible) :
    Node.ofText (Text.glyphsOfText j.text) = (j.node, true) := by
  have htokens := tokens_write j [] h trivial
  rw [List.map_nil, tokens_nil] at htokens
  have hread := read_lex j _ [] h (Nat.le_refl (2 * j.lex.length))
  rw [List.append_nil] at htokens hread
  simp only [Node.ofText, Text.glyphsOfText, text, String.toList_ofList, htokens, hread,
    List.isEmpty_nil]

end Marginalia.Json
