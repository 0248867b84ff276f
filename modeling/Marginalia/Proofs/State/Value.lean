import Marginalia.Proofs.State.Excerpt
import Marginalia.State.Value

/-!
# State — values inside values

Values hold values in lists of fields and in excerpts. What holds of a
value once it holds of those inside holds of every value
(`Value.induction`).

A place inside a value is named by a route: at each value on the way, the
position of the one to go on into (`Value.at?`). The paths that a value is
said to point along are those of the pointers at its routes
(`Value.mem_pointers`).
-/

namespace Marginalia

/-- **Induction on values**: fields and elements come before the value
that holds them. -/
@[elab_as_elim]
theorem Value.induction {P : Value → Prop} (bool : ∀ b, P (.bool b)) (char : ∀ c, P (.char c))
    (uint : ∀ n, P (.uint n)) (int : ∀ n, P (.int n)) (float : ∀ x, P (.float x))
    (pointer : ∀ path, P (.pointer path))
    (struct : ∀ name fields, (∀ f ∈ fields, P f.2) → P (.struct name fields))
    (enum : ∀ name variant fields, (∀ f ∈ fields, P f.2) → P (.enum name variant fields))
    (string : ∀ units, P (.string units))
    (array : ∀ items, (∀ a ∈ items.front, P a) → (∀ a ∈ items.last, P a) → P (.array items))
    (unallocated : P .unallocated) (v : Value) : P v := by
  -- the lists, the pairs and the excerpt are types of their own to the recursor
  refine @Value.rec P (fun fields => ∀ f ∈ fields, P f.2)
    (fun items => (∀ a ∈ items.front, P a) ∧ ∀ a ∈ items.last, P a) (fun f => P f.2)
    (fun front => ∀ a ∈ front, P a) (fun last => ∀ a ∈ last, P a)
    bool char uint int float pointer struct enum string (fun items h => array items h.1 h.2)
    unallocated ?_ ?_ ?_ ?_ ?_ ?_ ?_ ?_ v
  case refine_1 => exact List.forall_mem_nil _
  case refine_2 => exact fun _ _ hf hfields => List.forall_mem_cons.mpr ⟨hf, hfields⟩
  case refine_3 => exact fun _ _ _ hfront hlast => ⟨hfront, hlast⟩
  case refine_4 => exact fun _ _ h => h
  case refine_5 => exact List.forall_mem_nil _
  case refine_6 => exact fun _ _ ha hfront => List.forall_mem_cons.mpr ⟨ha, hfront⟩
  case refine_7 => exact fun _ h => nomatch h
  case refine_8 => exact fun _ h _ ha => Option.some.inj ha ▸ h

namespace Value

variable {v w : Value} {path : Path}

/-! ## Routes -/

/-- The values right inside a value, in order: the fields of a struct or
enum, the elements of an array that are there. -/
def children : Value → List Value
  | .struct _ fields => fields.map Prod.snd
  | .enum _ _ fields => fields.map Prod.snd
  | .array items => items.included.map Prod.snd
  | _ => []

/-- The value at a route. -/
def at? : Value → List Nat → Option Value
  | v, [] => some v
  | v, k :: route => v.children[k]?.bind fun c => c.at? route

/-- `w` is `v` or stands somewhere inside it. -/
def Holds (v w : Value) : Prop := ∃ route, v.at? route = some w

theorem children_array (items : Excerpt Value) :
    (Value.array items).children = items.front ++ items.last.toList :=
  items.map_snd_included

/-- What holds of a value once it holds of those right inside. -/
@[elab_as_elim]
theorem children_induction {P : Value → Prop} (h : ∀ v, (∀ c ∈ v.children, P c) → P v)
    (v : Value) : P v := by
  induction v using Value.induction with
  | struct name fields ih => exact h _ (List.forall_mem_map.mpr ih)
  | enum name variant fields ih => exact h _ (List.forall_mem_map.mpr ih)
  | array items hfront hlast =>
    refine h _ ?_
    rw [children_array]
    intro c hc
    rcases List.mem_append.mp hc with hc | hc
    · exact hfront c hc
    · exact hlast c (Option.mem_toList.mp hc)
  | _ => exact h _ (List.forall_mem_nil _)

/-- A value holds itself, and what the values right inside hold. -/
theorem holds_iff : v.Holds w ↔ w = v ∨ ∃ c ∈ v.children, c.Holds w := by
  constructor
  · rintro ⟨route, hroute⟩
    cases route with
    | nil => exact .inl (Option.some.inj hroute).symm
    | cons k route =>
      obtain ⟨c, hc, hroute⟩ := Option.bind_eq_some_iff.mp hroute
      exact .inr ⟨c, List.mem_of_getElem? hc, route, hroute⟩
  · rintro (rfl | ⟨c, hc, route, hroute⟩)
    · exact ⟨[], rfl⟩
    · obtain ⟨k, hk⟩ := List.mem_iff_getElem?.mp hc
      exact ⟨k :: route, by rw [at?, hk, Option.bind_some, hroute]⟩

/-! ## Pointers -/

theorem pointersOfFields_eq (fields : List (String × Value)) :
    pointersOfFields fields = (fields.map Prod.snd).flatMap pointers := by
  induction fields with
  | nil => rfl
  | cons f fields ih => rw [pointersOfFields, ih, List.map_cons, List.flatMap_cons]

theorem pointersOfItems_eq (items : List Value) :
    pointersOfItems items = items.flatMap pointers := by
  induction items with
  | nil => rfl
  | cons a items ih => rw [pointersOfItems, ih, List.flatMap_cons]

theorem pointersOfLast_eq (last : Option Value) :
    pointersOfLast last = last.toList.flatMap pointers := by
  cases last with
  | none => rfl
  | some a => exact (List.append_nil _).symm

/-- But for a pointer itself, the paths are those of the values right
inside, in their order. -/
theorem pointers_eq_flatMap (h : ∀ path, v ≠ .pointer path) :
    v.pointers = v.children.flatMap pointers := by
  cases v with
  | pointer path => exact absurd rfl (h path)
  | struct name fields => exact pointersOfFields_eq fields
  | enum name variant fields => exact pointersOfFields_eq fields
  | array items =>
    rw [children_array, List.flatMap_append, ← pointersOfItems_eq, ← pointersOfLast_eq]
    rfl
  | _ => rfl

/-- **The paths that are collected are those of the pointers inside.** -/
theorem mem_pointers : path ∈ v.pointers ↔ v.Holds (.pointer path) := by
  induction v using children_induction with
  | h v ih =>
    rw [holds_iff]
    by_cases hv : ∃ path', v = .pointer path'
    · obtain ⟨path', rfl⟩ := hv
      simp [pointers, children]
    · have hne : ∀ path', v ≠ .pointer path' := fun path' h => hv ⟨path', h⟩
      rw [pointers_eq_flatMap hne, List.mem_flatMap, or_iff_right (hne path).symm]
      exact exists_congr fun c => and_congr_right (ih c)

end Value

end Marginalia
