import Marginalia.Json.Tagged
import Marginalia.Proofs.Json.Node

/-!
# Json — what is known of a message

A message may hold keys that mean nothing where they stand. An `Outline`
says which keys do and what stands under them, so that the values of the
others can be left out (`Json.Outline.known`) and the brackets of what
remains be counted (`Json.Outline.depth`).
-/

namespace Marginalia.Json

variable {γ : Type} {n : Nat} {items : List Node} {members : List Member} {closed : Bool}

/-! ## Brackets that are read -/

namespace Node

mutual

/-- How many brackets stand inside one another at most. -/
def nesting : Node → Nat
  | .array items _ => nestingItems items + 1
  | .object members _ => nestingMembers members + 1
  | _ => 0

/-- The deepest nesting among the items of a list. -/
def nestingItems : List Node → Nat
  | [] => 0
  | item :: items => max item.nesting (nestingItems items)

/-- The deepest nesting among the values of an object. -/
def nestingMembers : List Member → Nat
  | [] => 0
  | (_, value) :: members => max value.nesting (nestingMembers members)

end

end Node

mutual

theorem nesting_node : ∀ j : Json, j.node.nesting = j.nesting
  | .null | .bool _ | .whole _ | .string _ => rfl
  | .real _ _ => by
    rw [node]
    split <;> rfl
  | .array items => by rw [node, Node.nesting, nesting, nestingItems_node items]
  | .object members => by rw [node, Node.nesting, nesting, nestingMembers_node members]

theorem nestingItems_node : ∀ items : List Json,
    Node.nestingItems (nodeItems items) = nestingItems items
  | [] => rfl
  | item :: items => by
    rw [nodeItems, Node.nestingItems, nestingItems, nesting_node item, nestingItems_node items]

theorem nestingMembers_node : ∀ members : List (String × Json),
    Node.nestingMembers (nodeMembers members) = nestingMembers members
  | [] => rfl
  | (_, value) :: members => by
    rw [nodeMembers, Node.nestingMembers, nestingMembers, nesting_node value,
      nestingMembers_node members]

end

/-- **The text of a message nests as deep as the message.** -/
theorem nesting_ofText {j : Json} (h : j.Legible) :
    (Node.ofText (Text.glyphsOfText j.text)).1.nesting = j.nesting := by
  rw [ofText_text h, nesting_node]

/-! ## Outlines -/

/-- What the arrays and objects of a message hold, as far as it is known. -/
inductive Outline where
  /-- Whatever stands there is known. -/
  | whole
  /-- Any number of items. -/
  | list (item : Outline)
  /-- Items in order. -/
  | tuple (items : List Outline)
  /-- Fields under their names, or as items in order. -/
  | record (fields : List (String × Outline))
  /-- By kind, what stands beside the name of the kind. -/
  | beside (kinds : List (String × Outline))
  /-- By kind, the fields that the name of the kind stands among. -/
  | inside (kinds : List (String × List (String × Outline)))
  /-- The outline that this one is a part of. -/
  | again
deriving Inhabited

namespace Outline

/-- What is said of the kind that a node names. -/
def pick (kinds : List (String × γ)) : Node → Option γ
  | .string (some name) => kinds.lookup name
  | .object ((some name, _) :: _) _ => kinds.lookup name
  | .number n => n.whole?.bind fun k => kinds[k.toNat]?.map Prod.snd
  | _ => none

/-- The outline of an item of an array. -/
def item (outline : Outline) (items : List Node) (i : Nat) : Outline :=
  match outline with
  | list item => item
  | tuple outlines => outlines[i]?.getD whole
  | record fields => (fields[i]?.map Prod.snd).getD whole
  | beside kinds => if i = 1 then (items[0]?.bind (pick kinds)).getD whole else whole
  | inside kinds =>
    match i with
    | 0 => whole
    | i + 1 => ((items[0]?.bind (pick kinds)).bind fun fields =>
        fields[i]?.map Prod.snd).getD whole
  | _ => whole

/-- The outline of the value under a key, if the key is known. -/
def member? (outline : Outline) (members : List Member) (key : String) : Option Outline :=
  let tag := (findMember "type" members).map Prod.snd
  match outline with
  | record fields => fields.lookup key
  | beside kinds =>
    if key = "type" then some whole
    else if key = "value" then some ((tag.bind (pick kinds)).getD whole)
    else none
  | inside kinds =>
    if key = "type" then some whole
    else (tag.bind (pick kinds)).bind fun fields => fields.lookup key
  | _ => some whole

/-- The outline itself, given the one that it is a part of. -/
def within (outline root : Outline) : Outline :=
  match outline with
  | again => root
  | outline => outline

mutual

/-- The node without the values of unknown keys. -/
def known (outline root : Outline) : Node → Node
  | .array items closed =>
    .array (knownItems root ((outline.within root).item items) items) closed
  | .object members closed =>
    .object (knownMembers root ((outline.within root).member? members) members) closed
  | node => node

/-- The items without the values of unknown keys. -/
def knownItems (root : Outline) (outline : Nat → Outline) : List Node → List Node
  | [] => []
  | item :: items =>
    (outline 0).known root item :: knownItems root (fun i => outline (i + 1)) items

/-- The members whose keys are known. -/
def knownMembers (root : Outline) (outline? : String → Option Outline) :
    List Member → List Member
  | [] => []
  | (none, _) :: members => knownMembers root outline? members
  | (some key, value) :: members =>
    match outline? key with
    | some outline => (some key, outline.known root value) :: knownMembers root outline? members
    | none => knownMembers root outline? members

end

/-- How deep the node nests, the values of unknown keys left out. -/
def depth (outline root : Outline) (node : Node) : Nat := (outline.known root node).nesting

variable {root outline : Outline} {fields : List (String × Outline)}

theorem nesting_knownItems_le {outlines : Nat → Outline} :
    Node.nestingItems (knownItems root outlines items) ≤ n ↔
      ∀ i item, items[i]? = some item → (outlines i).depth root item ≤ n := by
  induction items generalizing outlines with
  | nil => simp [knownItems, Node.nestingItems]
  | cons item items ih =>
    rw [knownItems, Node.nestingItems, Nat.max_le, ih]
    constructor
    · rintro ⟨hitem, hitems⟩ (_ | i) item' hmem
      · exact Option.some.inj hmem ▸ hitem
      · exact hitems i item' hmem
    · intro h
      exact ⟨h 0 item rfl, fun i item' hmem => h (i + 1) item' hmem⟩

theorem nesting_knownMembers_le {outline? : String → Option Outline} :
    Node.nestingMembers (knownMembers root outline? members) ≤ n ↔
      ∀ key value, (some key, value) ∈ members →
        ∀ o ∈ outline? key, o.depth root value ≤ n := by
  induction members with
  | nil => simp [knownMembers, Node.nestingMembers]
  | cons member members ih =>
    obtain ⟨_ | key, value⟩ := member
    · simp [knownMembers, ih]
    · have hknown :
          Node.nestingMembers (knownMembers root outline? ((some key, value) :: members)) ≤ n ↔
          (∀ o ∈ outline? key, o.depth root value ≤ n) ∧
            Node.nestingMembers (knownMembers root outline? members) ≤ n := by
        rw [knownMembers]
        cases outline? key with
        | none => simp
        | some o =>
          simp only [Option.mem_some, forall_eq', Node.nestingMembers, depth]
          exact Nat.max_le
      rw [hknown, ih]
      constructor
      · rintro ⟨hvalue, hmembers⟩ key' value' hmem
        rcases List.mem_cons.mp hmem with heq | hmem
        · obtain ⟨⟨⟩, rfl⟩ := Prod.mk.inj heq
          exact hvalue
        · exact hmembers key' value' hmem
      · intro h
        exact ⟨h key value List.mem_cons_self,
          fun key' value' hmem => h key' value' (List.mem_cons_of_mem _ hmem)⟩

/-- An item lies a bracket deeper than its array. -/
theorem depth_array_le :
    outline.depth root (.array items closed) ≤ n + 1 ↔
      ∀ i item, items[i]? = some item →
        ((outline.within root).item items i).depth root item ≤ n := by
  rw [depth, known, Node.nesting, Nat.add_le_add_iff_right, nesting_knownItems_le]

/-- A value lies a bracket deeper than its object. -/
theorem depth_object_le :
    outline.depth root (.object members closed) ≤ n + 1 ↔
      ∀ key value, (some key, value) ∈ members →
        ∀ o ∈ (outline.within root).member? members key, o.depth root value ≤ n := by
  rw [depth, known, Node.nesting, Nat.add_le_add_iff_right, nesting_knownMembers_le]

theorem depth_again (root : Outline) (node : Node) :
    again.depth root node = root.depth root node := by
  have hwithin : root.within root = root := by cases root <;> rfl
  cases node <;> simp only [depth, known, hwithin] <;> rfl

end Outline

end Marginalia.Json
