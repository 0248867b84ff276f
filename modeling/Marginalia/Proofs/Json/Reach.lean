import Marginalia.Proofs.Json.Outline

/-!
# Json — places in a message

An outline names the places of a message at which something is wanted, and
what is wanted there (`Json.Outline.Reaches`). A `Demand` asks something of
every node at which a kind of one name may stand. Where an outline has no
such place (`Json.Outline.lacks`), nothing is asked (`Json.Demand.met_of_lacks`).

The arrays of a text are not longer than the text (`Json.width_ofText_le`).
-/

namespace Marginalia.Json

variable {γ : Type} {n : Nat} {items : List Node} {members : List Member} {closed : Bool}
variable {key : Option String} {node item value : Node}

/-! ## The longest array -/

namespace Node

mutual

/-- How many items an array in it has at most. -/
def width : Node → Nat
  | .array items _ => max items.length (widthItems items)
  | .object members _ => widthMembers members
  | _ => 0

/-- The longest array among the items of a list. -/
def widthItems : List Node → Nat
  | [] => 0
  | item :: items => max item.width (widthItems items)

/-- The longest array among the values of an object. -/
def widthMembers : List Member → Nat
  | [] => 0
  | (_, value) :: members => max value.width (widthMembers members)

end

theorem width_item_le (h : item ∈ items) : item.width ≤ widthItems items := by
  induction items with
  | nil => cases h
  | cons first items ih =>
    rw [widthItems]
    rcases List.mem_cons.mp h with rfl | h
    · exact Nat.le_max_left ..
    · exact Nat.le_trans (ih h) (Nat.le_max_right ..)

theorem width_value_le (h : (key, value) ∈ members) : value.width ≤ widthMembers members := by
  induction members with
  | nil => cases h
  | cons first members ih =>
    obtain ⟨_, next⟩ := first
    rw [widthMembers]
    rcases List.mem_cons.mp h with heq | h
    · cases heq
      exact Nat.le_max_left ..
    · exact Nat.le_trans (ih h) (Nat.le_max_right ..)

mutual

-- The induction is on the fuel, as the reader goes from a value to its items
-- and back.

/-- **What is read off the front of some tokens** is no wider than they are
many, and leaves no more of them. -/
theorem width_of_read (fuel : Nat) (ts : List Token) {rest : List Token} {root : Node}
    (h : read fuel ts = (root, rest)) : root.width ≤ ts.length ∧ rest.length ≤ ts.length := by
  unfold read at h
  split at h
  · split at h
    · cases h
      simp [width, widthItems]
      omega
    · cases h
      obtain ⟨hlength, hwidth, hrest⟩ := width_of_readItems _ _ rfl
      exact ⟨Nat.max_le.mpr ⟨hlength, Nat.le_succ_of_le hwidth⟩, Nat.le_succ_of_le hrest⟩
  · split at h
    · cases h
      simp [width, widthMembers]
      omega
    · cases h
      obtain ⟨hwidth, hrest⟩ := width_of_readMembers _ _ rfl
      exact ⟨Nat.le_succ_of_le hwidth, Nat.le_succ_of_le hrest⟩
  all_goals
    cases h
    simp [width]
termination_by fuel

theorem width_of_readItems (fuel : Nat) (ts : List Token) {rest : List Token} {items : List Node}
    {closed : Bool} (h : readItems fuel ts = (items, closed, rest)) :
    items.length ≤ ts.length + 1 ∧ widthItems items ≤ ts.length ∧ rest.length ≤ ts.length := by
  unfold readItems at h
  split at h
  · cases h
    simp [widthItems, width]
  · rename_i fuel
    dsimp only at h
    obtain ⟨hitem, hafter⟩ := width_of_read fuel ts rfl
    split at h
    · rename_i after heq
      rw [heq, List.length_cons] at hafter
      cases h
      obtain ⟨hlength, hwidth, hrest⟩ := width_of_readItems fuel after rfl
      simp only [widthItems, List.length_cons, Nat.max_le]
      omega
    · rename_i after heq
      rw [heq, List.length_cons] at hafter
      cases h
      simp only [widthItems, List.length_singleton, Nat.max_le]
      omega
    · cases h
      simp only [widthItems, List.length_singleton, List.length_nil, Nat.max_le]
      omega
termination_by fuel

theorem width_of_readMembers (fuel : Nat) (ts : List Token) {rest : List Token}
    {members : List Member} {closed : Bool} (h : readMembers fuel ts = (members, closed, rest)) :
    widthMembers members ≤ ts.length ∧ rest.length ≤ ts.length := by
  unfold readMembers at h
  split at h
  · cases h
    simp [widthMembers]
  · rename_i fuel key ts
    dsimp only at h
    obtain ⟨hvalue, hafter⟩ := width_of_read fuel ts rfl
    split at h
    · rename_i after heq
      rw [heq, List.length_cons] at hafter
      cases h
      obtain ⟨hwidth, hrest⟩ := width_of_readMembers fuel after rfl
      simp only [widthMembers, List.length_cons, Nat.max_le]
      omega
    · rename_i after heq
      rw [heq, List.length_cons] at hafter
      cases h
      simp only [widthMembers, List.length_cons, Nat.max_le]
      omega
    · cases h
      simp only [widthMembers, List.length_cons, List.length_nil, Nat.max_le]
      omega
  all_goals
    cases h
    simp [widthMembers, width]
termination_by fuel

end

end Node

theorem length_tokensWithin_le (fuel : Nat) (text : List Text.Glyph) :
    (tokensWithin fuel text).length ≤ fuel := by
  induction fuel generalizing text with
  | zero => simp [tokensWithin]
  | succ fuel ih =>
    rcases text with _ | ⟨_ | c, rest⟩
    · simp [tokensWithin]
    · simp [tokensWithin]
    · rw [tokensWithin]
      split
      · exact Nat.le_succ_of_le (ih rest)
      · split
        · rename_i rest _
          exact Nat.succ_le_succ (ih rest)
        · simp

/-- **No array is longer than the text** that it was read from. -/
theorem width_ofText_le (text : List Text.Glyph) : (Node.ofText text).1.width ≤ text.length :=
  Nat.le_trans (Node.width_of_read _ _ rfl).1 (length_tokensWithin_le text.length text)

theorem length_glyphs_le (bytes : ByteArray) : (Text.glyphs bytes).length ≤ bytes.size := by
  have hfrom (fuel i : Nat) : (Text.glyphsFrom bytes fuel i).length ≤ fuel := by
    induction fuel generalizing i with
    | zero => exact Nat.le_refl 0
    | succ fuel ih =>
      rw [Text.glyphsFrom]
      split
      · exact Nat.zero_le _
      · split
        · exact Nat.succ_le_succ (ih _)
        · exact Nat.succ_le_succ (ih _)
  exact hfrom bytes.size 0

/-! ## Places -/

namespace Outline

variable {root outline outline' o : Outline} {node' : Node} {name : String}

/-- **What is wanted where**: the outlines of the places in a message, and
the nodes that stand there. -/
inductive Reaches (root : Outline) : Outline → Node → Outline → Node → Prop
  /-- At the node itself. -/
  | here (outline : Outline) (node : Node) : Reaches root outline node (outline.within root) node
  /-- In an item of an array. -/
  | item {outline o : Outline} {items : List Node} {closed : Bool} {i : Nat} {item node : Node} :
      items[i]? = some item → Reaches root ((outline.within root).item items i) item o node →
      Reaches root outline (.array items closed) o node
  /-- In the value of a known key. -/
  | member {outline inner o : Outline} {members : List Member} {closed : Bool} {key : String}
      {i : Nat} {value node : Node} :
      findMember key members = some (i, value) →
      (outline.within root).member? members key = some inner →
      Reaches root inner value o node → Reaches root outline (.object members closed) o node

/-- What stands beside the name of a kind is wanted as that kind says. -/
theorem Reaches.beside {kinds : List (String × Outline)} (h : kinds.lookup name = some outline)
    (hreaches : Reaches root outline item o node) :
    Reaches root (.beside kinds) (.array [.string (some name), item] closed) o node := by
  refine .item (i := 1) rfl ?_
  show Reaches root ((kinds.lookup name).getD whole) item o node
  rwa [h]

/-- The name is that of a kind which may stand here. -/
def offers (name : String) : Outline → Bool
  | beside kinds => (kinds.lookup name).isSome
  | _ => false

mutual

/-- No place offers a kind of the name, and none is the outline again. -/
def lacks (name : String) : Outline → Bool
  | whole => true
  | list item => item.lacks name
  | tuple items => lacksItems name items
  | record fields => lacksFields name fields
  | beside kinds => (kinds.lookup name).isNone && lacksFields name kinds
  | inside kinds => lacksKinds name kinds
  | again => false

/-- None of the items has such a place. -/
def lacksItems (name : String) : List Outline → Bool
  | [] => true
  | item :: items => item.lacks name && lacksItems name items

/-- None of the fields has such a place. -/
def lacksFields (name : String) : List (String × Outline) → Bool
  | [] => true
  | (_, outline) :: fields => outline.lacks name && lacksFields name fields

/-- None of the fields of any kind has such a place. -/
def lacksKinds (name : String) : List (String × List (String × Outline)) → Bool
  | [] => true
  | (_, fields) :: kinds => lacksFields name fields && lacksKinds name kinds

end

/-! ### Outlines without a place for the kind -/

theorem mem_of_lookup {kinds : List (String × γ)} {key : String} {x : γ}
    (h : kinds.lookup key = some x) : (key, x) ∈ kinds := by
  obtain ⟨front, back, rfl, -⟩ := List.lookup_eq_some_iff.mp h
  exact List.mem_append_right _ List.mem_cons_self

theorem mem_of_pick {kinds : List (String × γ)} {x : γ} (h : pick kinds node = some x) :
    ∃ key, (key, x) ∈ kinds := by
  unfold pick at h
  split at h
  · exact ⟨_, mem_of_lookup h⟩
  · exact ⟨_, mem_of_lookup h⟩
  · obtain ⟨k, -, hk⟩ := Option.bind_eq_some_iff.mp h
    obtain ⟨⟨key, _⟩, hkind, rfl⟩ := Option.map_eq_some_iff.mp hk
    exact ⟨key, List.mem_of_getElem? hkind⟩
  · cases h

theorem lacks_of_mem_items {items : List Outline} (h : lacksItems name items = true)
    (ho : o ∈ items) : o.lacks name = true := by
  induction items with
  | nil => cases ho
  | cons first items ih =>
    rw [lacksItems, Bool.and_eq_true] at h
    rcases List.mem_cons.mp ho with rfl | ho
    · exact h.1
    · exact ih h.2 ho

theorem lacks_of_mem_fields {fields : List (String × Outline)} {key : String}
    (h : lacksFields name fields = true) (ho : (key, o) ∈ fields) : o.lacks name = true := by
  induction fields with
  | nil => cases ho
  | cons first fields ih =>
    obtain ⟨_, first⟩ := first
    rw [lacksFields, Bool.and_eq_true] at h
    rcases List.mem_cons.mp ho with heq | ho
    · cases heq
      exact h.1
    · exact ih h.2 ho

theorem lacksFields_of_mem_kinds {kinds : List (String × List (String × Outline))} {key : String}
    {fields : List (String × Outline)} (h : lacksKinds name kinds = true)
    (hkind : (key, fields) ∈ kinds) : lacksFields name fields = true := by
  induction kinds with
  | nil => cases hkind
  | cons first kinds ih =>
    obtain ⟨_, first⟩ := first
    rw [lacksKinds, Bool.and_eq_true] at h
    rcases List.mem_cons.mp hkind with heq | hkind
    · cases heq
      exact h.1
    · exact ih h.2 hkind

theorem lacks_getD {o? : Option Outline} (h : ∀ o, o? = some o → o.lacks name = true) :
    (o?.getD whole).lacks name = true := by
  cases o? with
  | none => rfl
  | some o => exact h o rfl

theorem lacks_item (h : outline.lacks name = true) (items : List Node) (i : Nat) :
    (outline.item items i).lacks name = true := by
  cases outline with
  | whole => rfl
  | list item => exact h
  | tuple outlines => exact lacks_getD fun o ho => lacks_of_mem_items h (List.mem_of_getElem? ho)
  | record fields =>
    refine lacks_getD fun o ho => ?_
    obtain ⟨⟨key, _⟩, hfield, rfl⟩ := Option.map_eq_some_iff.mp ho
    exact lacks_of_mem_fields h (List.mem_of_getElem? hfield)
  | beside kinds =>
    rw [lacks, Bool.and_eq_true] at h
    rw [item]
    split
    · refine lacks_getD fun o ho => ?_
      obtain ⟨tag, -, hpick⟩ := Option.bind_eq_some_iff.mp ho
      obtain ⟨key, hkind⟩ := mem_of_pick hpick
      exact lacks_of_mem_fields h.2 hkind
    · rfl
  | inside kinds =>
    cases i with
    | zero => rfl
    | succ i =>
      refine lacks_getD fun o ho => ?_
      obtain ⟨fields, hfields, ho⟩ := Option.bind_eq_some_iff.mp ho
      obtain ⟨tag, -, hpick⟩ := Option.bind_eq_some_iff.mp hfields
      obtain ⟨key, hkind⟩ := mem_of_pick hpick
      obtain ⟨⟨name', _⟩, hfield, rfl⟩ := Option.map_eq_some_iff.mp ho
      exact lacks_of_mem_fields (lacksFields_of_mem_kinds h hkind) (List.mem_of_getElem? hfield)
  | again => cases h

theorem lacks_member? {key : String} (h : outline.lacks name = true)
    (ho : outline.member? members key = some o) : o.lacks name = true := by
  cases outline with
  | record fields => exact lacks_of_mem_fields h (mem_of_lookup ho)
  | beside kinds =>
    rw [lacks, Bool.and_eq_true] at h
    simp only [member?] at ho
    split at ho
    · cases ho
      rfl
    · split at ho
      · cases ho
        refine lacks_getD fun o ho => ?_
        obtain ⟨tag, -, hpick⟩ := Option.bind_eq_some_iff.mp ho
        obtain ⟨key, hkind⟩ := mem_of_pick hpick
        exact lacks_of_mem_fields h.2 hkind
      · cases ho
  | inside kinds =>
    simp only [member?] at ho
    split at ho
    · cases ho
      rfl
    · obtain ⟨fields, hfields, ho⟩ := Option.bind_eq_some_iff.mp ho
      obtain ⟨tag, -, hpick⟩ := Option.bind_eq_some_iff.mp hfields
      obtain ⟨key, hkind⟩ := mem_of_pick hpick
      exact lacks_of_mem_fields (lacksFields_of_mem_kinds h hkind) (mem_of_lookup ho)
  | again => cases h
  | _ =>
    cases ho
    rfl

theorem within_of_lacks (h : outline.lacks name = true) : outline.within root = outline := by
  cases outline with
  | again => cases h
  | _ => rfl

theorem offers_of_lacks (h : outline.lacks name = true) : outline.offers name = false := by
  cases outline with
  | beside kinds =>
    rw [lacks, Bool.and_eq_true, Option.isNone_iff_eq_none] at h
    rw [offers, h.1]
    rfl
  | _ => rfl

/-- **An outline that lacks a kind** reaches no place for it. -/
theorem Reaches.offers_eq_false (h : Reaches root outline node o node')
    (hlacks : outline.lacks name = true) : o.offers name = false := by
  induction h with
  | here outline node =>
    rw [within_of_lacks hlacks]
    exact offers_of_lacks hlacks
  | item hitem _ ih =>
    rw [within_of_lacks hlacks] at ih
    exact ih (lacks_item hlacks _ _)
  | member hvalue hinner _ ih =>
    rw [within_of_lacks hlacks] at hinner
    exact ih (lacks_member? hlacks hinner)

/-- The outline that stands for another reaches what that one does. -/
theorem reaches_again : Reaches root again node o node' ↔ Reaches root root node o node' := by
  have hwithin : again.within root = root.within root := by cases root <;> rfl
  constructor
  · intro h
    cases h with
    | here => exact hwithin ▸ .here root node
    | item hitem h => exact .item hitem (hwithin ▸ h)
    | member hvalue hinner h => exact .member hvalue (hwithin ▸ hinner) h
  · intro h
    cases h with
    | here => exact hwithin ▸ .here again node
    | item hitem h => exact .item hitem (hwithin ▸ h)
    | member hvalue hinner h => exact .member hvalue (hwithin ▸ hinner) h

end Outline

/-! ## Demands -/

/-- What is asked of a message: that it is in order wherever a kind of the
name may stand. -/
structure Demand where
  /-- What an outline stands for that is another one again. -/
  root : Outline
  /-- The name of the kind. -/
  kind : String
  /-- What is asked of a node where it may stand, -/
  asks : Node → Prop
  /-- but not of one that may stand for nothing. -/
  null : asks .null

namespace Demand

variable {demand : Demand} {outline : Outline}

/-- The demand is met at every place in the node. -/
def Met (demand : Demand) (outline : Outline) (node : Node) : Prop :=
  ∀ o node', Outline.Reaches demand.root outline node o node' →
    o.offers demand.kind = true → demand.asks node'

theorem met_of_lacks (h : outline.lacks demand.kind = true) (node : Node) :
    demand.Met outline node := by
  intro o node' hreaches hoffers
  rw [hreaches.offers_eq_false h] at hoffers
  cases hoffers

theorem met_whole (node : Node) : demand.Met .whole node := met_of_lacks rfl node

theorem met_null (outline : Outline) : demand.Met outline .null := by
  intro o node' hreaches hoffers
  cases hreaches
  exact demand.null

/-- A demand is met in an array if it is met by the array and in each item. -/
theorem met_array (hhere : (outline.within demand.root).offers demand.kind = true →
      demand.asks (.array items closed))
    (hitems : ∀ i item, items[i]? = some item →
      demand.Met ((outline.within demand.root).item items i) item) :
    demand.Met outline (.array items closed) := by
  intro o node' hreaches hoffers
  cases hreaches with
  | here => exact hhere hoffers
  | item hitem hreaches => exact hitems _ _ hitem o node' hreaches hoffers

/-- A demand is met in an object if it is met by the object and in the value
of each known key. -/
theorem met_object (hhere : (outline.within demand.root).offers demand.kind = true →
      demand.asks (.object members closed))
    (hvalues : ∀ key i value inner, findMember key members = some (i, value) →
      (outline.within demand.root).member? members key = some inner → demand.Met inner value) :
    demand.Met outline (.object members closed) := by
  intro o node' hreaches hoffers
  cases hreaches with
  | here => exact hhere hoffers
  | member hvalue hinner hreaches => exact hvalues _ _ _ _ hvalue hinner o node' hreaches hoffers

theorem Met.again (h : demand.Met demand.root node) : demand.Met .again node :=
  fun o node' hreaches hoffers => h o node' (Outline.reaches_again.mp hreaches) hoffers

end Demand

end Marginalia.Json
