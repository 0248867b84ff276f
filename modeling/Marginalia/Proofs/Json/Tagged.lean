import Marginalia.Proofs.Json.Decoder

/-!
# Json — kinds among fields, results, and fields left out

The values that have the name of their kind among their fields are read
as a whole first, and by kind afterwards. Reading a message as a whole
finds no more fault with it than decoding does: that it nests too deep
(`Json.Held`). So such a value is read like any other
(`Json.Decoder.reads_inside`, `Json.Decoder.reads_inside_single`).

A field that is left out where there is nothing to say is read as nothing
(`Json.Fields.Reads.given`).
-/

namespace Marginalia.Json

variable {α β ε : Type} {n : Nat} {a : α} {j : Json} {members own : List (String × Json)}

/-- Room that was there once is there again. -/
theorem ifRoom_twice (room depth : Nat) (a : α) :
    (ifRoom room depth () >>= fun _ => ifRoom room depth a) = ifRoom room depth a := by
  unfold ifRoom
  split <;> rfl

/-! ## Reading as a whole -/

/-- **The message can be held**: read as a whole, it has no fault but its
depth. -/
def Held (j : Json) : Prop := ∀ room, Decoder.hold room j.node = ifRoom room j.nesting ()

theorem held_bool (b : Bool) : (Json.bool b).Held := fun room => (ifRoom_zero room ()).symm

theorem held_string (s : String) : (Json.string s).Held := fun room => (ifRoom_zero room ()).symm

theorem held_null : Json.null.Held := fun room => (ifRoom_zero room ()).symm

theorem held_ofNat (h : n < wordBound) : (Json.ofNat n).Held := by
  intro room
  have hnumber : (wholeNumeral n).number? = some (.whole n) := by
    rw [Numeral.number?, Decoder.whole?_wholeNumeral h]
  simp [ofNat, node, Decoder.hold, hnumber, nesting, ifRoom_zero, pure, Except.pure]

theorem holdItems_eq {items : List Json} (h : ∀ item ∈ items, item.Held) (room : Nat) :
    Decoder.holdItems room (nodeItems items) = ifRoom room (nestingItems items) () := by
  induction items with
  | nil => exact (ifRoom_zero room ()).symm
  | cons item items ih =>
    rw [List.forall_mem_cons] at h
    rw [nodeItems, Decoder.holdItems, h.1 room, nestingItems]
    exact ifRoom_bind (ih h.2)

theorem holdMembers_eq (h : ∀ m ∈ members, m.2.Held) (room : Nat) :
    Decoder.holdMembers room (nodeMembers members) = ifRoom room (nestingMembers members) () := by
  induction members with
  | nil => exact (ifRoom_zero room ()).symm
  | cons member members ih =>
    rw [List.forall_mem_cons] at h
    rw [nodeMembers, Decoder.holdMembers, h.1 room, nestingMembers]
    exact ifRoom_bind (ih h.2)

theorem held_array {items : List Json} (h : ∀ item ∈ items, item.Held) : (Json.array items).Held
  | 0 => rfl
  | room + 1 => by
    rw [node, Decoder.hold, holdItems_eq h, nesting]
    simp only [ifRoom, Nat.add_le_add_iff_right]
    split <;> rfl

theorem held_object (h : ∀ m ∈ members, m.2.Held) : (Json.object members).Held
  | 0 => rfl
  | room + 1 => by
    rw [node, Decoder.hold, holdMembers_eq h, nesting]
    simp only [ifRoom, Nat.add_le_add_iff_right]
    split <;> rfl

theorem held_list {f : α → Json} {as : List α} (h : ∀ a ∈ as, (f a).Held) : (list f as).Held :=
  held_array (List.forall_mem_map.mpr h)

theorem held_tagged {name : String} (h : j.Held) : (tagged name j).Held :=
  held_object (by simp [held_string, h])

/-! ## Fields that are left out -/

namespace Fields

variable {name : String} {d : Decoder α}

/-- A field that is there, though it has a value even if it is not. -/
theorem Reads.defaulted {i : Nat} {value : α}
    (hmember : findMember name (nodeMembers members) = some (i, j.node))
    (h : d.Reads n j a) : Reads n (defaulted name d value) members [(name, j)] a := by
  refine ⟨⟨h.legible, trivial⟩, fun p hp => ?_⟩
  rw [nestingMembers, nestingMembers, Nat.max_zero]
  simp only [Fields.defaulted, hmember, h.eq p hp]
  exact .ofResult _ _ _ _

/-- **A field is read where it is given, and is nothing where it is
not.** -/
theorem Reads.given {f : α → Json} {o : Option α}
    (hmember : (findMember name (nodeMembers members)).map Prod.snd = o.map fun a => (f a).node)
    (h : ∀ a ∈ o, d.Reads n (f a) a) (hf : ∀ a, f a ≠ .null) :
    Reads n (Fields.optional name d) members (Json.given name f o) o := by
  cases o with
  | none =>
    refine ⟨trivial, fun p _ => ⟨0, ?_⟩⟩
    have hnone : findMember name (nodeMembers members) = none := by simpa using hmember
    simp [Fields.optional, Fields.defaulted, hnone, Json.given, nestingMembers]
  | some a =>
    obtain ⟨⟨i, v⟩, hfind, rfl⟩ := Option.map_eq_some_iff.mp hmember
    exact .optional hfind ((h a rfl).optional_some (hf a))

@[simp] theorem names_defaulted (name : String) (d : Decoder α) (value : α) :
    (Fields.defaulted name d value).names = [name] :=
  rfl

end Fields

namespace Decoder

variable {type name : String} {kinds : Kinds α} {content : Content α} {fields : Fields α}
variable {title : Option String} {p : Place} {d : Decoder α}

/-! ## Kinds among fields -/

theorem withoutType_nodeMembers (h : "type" ∉ members.map Prod.fst) :
    withoutType (nodeMembers members) = nodeMembers members := by
  induction members with
  | nil => rfl
  | cons member members ih =>
    rw [List.map_cons, List.mem_cons, not_or] at h
    rw [nodeMembers, withoutType, List.filter_cons_of_pos, ← withoutType, ih h.2]
    simpa using Ne.symm h.1

/-- Once the kind is known, the other members are read as a whole. -/
theorem insideMembers_eq (htype : "type" ∉ members.map Prod.fst)
    (hheld : ∀ m ∈ members, m.2.Held) (kind : String × Content α) :
    insideMembers kinds p (some kind) (nodeMembers members) =
      if p.held then .ok (some kind) else ifRoom p.room (nestingMembers members) (some kind) := by
  induction members with
  | nil =>
    rw [nestingMembers, ifRoom_zero, ite_self]
    rfl
  | cons member members ih =>
    rw [List.map_cons, List.mem_cons, not_or] at htype
    rw [List.forall_mem_cons] at hheld
    rw [nodeMembers, insideMembers, if_neg (Ne.symm htype.1), holdAt, hheld.1 p.room]
    cases hp : p.held with
    | true =>
      rw [hp, if_pos rfl] at ih
      exact ih htype.2 hheld.2
    | false =>
      rw [hp, if_neg Bool.false_ne_true] at ih
      exact ifRoom_bind (ih htype.2 hheld.2)

/-- What the content of a kind makes of the other members, which were read
as a whole. -/
def insideContent (room : Nat) (members : List Member) : Content α → Except Fault α
  | .bare a => .ok a
  | .single d => d ⟨room + 1, true⟩ (.object members true)
  | .record _ fields => fields.ofObject ⟨room, true⟩ members true

/-- An object with the name of its kind in front is held, and then read by
its kind. -/
theorem inside_object {room : Nat} {held : Bool} (hkind : kindOf kinds name = .ok (name, content))
    (htype : "type" ∉ members.map Prod.fst) (hheld : ∀ m ∈ members, m.2.Held) :
    inside type kinds ⟨room + 1, held⟩ (Json.object (("type", .string name) :: members)).node =
      (if held then .ok () else ifRoom room (nestingMembers members) ()) >>= fun _ =>
        insideContent room (nodeMembers members) content := by
  have hmembers : insideMembers kinds ⟨room, held⟩ none
      ((some "type", .string (some name)) :: nodeMembers members) =
        if held then .ok (some (name, content))
        else ifRoom room (nestingMembers members) (some (name, content)) := by
    rw [insideMembers, if_pos rfl, kindItem, hkind]
    exact insideMembers_eq htype hheld (name, content)
  have hrest : withoutType ((some "type", .string (some name)) :: nodeMembers members) =
      nodeMembers members := by
    rw [withoutType, List.filter_cons_of_neg (by simp), ← withoutType,
      withoutType_nodeMembers htype]
  have hinside : inside type kinds ⟨room + 1, held⟩
      (.object ((some "type", .string (some name)) :: nodeMembers members) true) =
        (insideMembers kinds ⟨room, held⟩ none
          ((some "type", .string (some name)) :: nodeMembers members)) >>= fun kind =>
            match kind with
            | none => .error (.missing "type")
            | some (_, content) => insideContent room (nodeMembers members) content := by
    simp only [inside, enter, hrest]
    show (insideMembers kinds ⟨room, held⟩ none _ >>= _) = _
    refine bind_congr fun kind => ?_
    match kind with
    | none => rfl
    | some (_, .bare _) => rfl
    | some (_, .single _) => rfl
    | some (_, .record _ _) => rfl
  rw [node, nodeMembers, node, hinside, hmembers]
  cases held with
  | true => rfl
  | false =>
    simp only [Bool.false_eq_true, if_false, ifRoom]
    split <;> rfl

theorem nesting_inside (name : String) (members : List (String × Json)) :
    (Json.object (("type", .string name) :: members)).nesting = nestingMembers members + 1 := by
  simp [nesting, nestingMembers]

/-- A message with its kind in front is read if its content reads the
other members. -/
theorem reads_of_insideContent (hkind : kindOf kinds name = .ok (name, content))
    (htype : "type" ∉ members.map Prod.fst) (hheld : ∀ m ∈ members, m.2.Held)
    (hlegible : LegibleMembers members)
    (h : ∀ room < n, insideContent room (nodeMembers members) content =
      ifRoom room (nestingMembers members) a) :
    Reads (n + 1) (inside type kinds) (.object (("type", .string name) :: members)) a := by
  refine ⟨⟨trivial, hlegible⟩, fun p hp => ?_⟩
  obtain ⟨room, held⟩ := p
  rw [nesting_inside]
  cases room with
  | zero => rfl
  | succ room =>
    rw [inside_object hkind htype hheld, h room (Nat.lt_of_succ_lt_succ hp)]
    cases held with
    | true => simp only [ifRoom, Nat.add_le_add_iff_right]; rfl
    | false =>
      -- holding the members and reading them need the same room
      rw [if_neg Bool.false_ne_true, ifRoom_twice]
      simp only [ifRoom, Nat.add_le_add_iff_right]

/-- **A record with its kind among its fields is read field by field.** -/
theorem reads_inside (hkind : kindOf kinds name = .ok (name, .record title fields))
    (h : fields.Reads n members members a) (hcover : Fields.Cover fields.names members)
    (htype : "type" ∉ members.map Prod.fst) (hheld : ∀ m ∈ members, m.2.Held) :
    Reads (n + 1) (inside type kinds) (.object (("type", .string name) :: members)) a :=
  reads_of_insideContent hkind htype hheld h.legible fun _ hroom => h.ofObject hcover hroom

/-- **A value with its kind among its fields is read as if the kind were
not there.** -/
theorem reads_inside_single (hkind : kindOf kinds name = .ok (name, .single d))
    (h : Reads (n + 1) d (.object members) a)
    (htype : "type" ∉ members.map Prod.fst) (hheld : ∀ m ∈ members, m.2.Held) :
    Reads (n + 1) (inside type kinds) (.object (("type", .string name) :: members)) a := by
  refine reads_of_insideContent hkind htype hheld h.legible fun room hroom => ?_
  have hd := h.eq ⟨room + 1, true⟩ (Nat.succ_lt_succ hroom)
  simp only [nesting, ifRoom, Nat.add_le_add_iff_right] at hd ⊢
  exact hd

/-- A kind that has no fields. -/
theorem reads_inside_bare (hkind : kindOf kinds name = .ok (name, .bare a)) :
    Reads (n + 1) (inside type kinds) (.kindOnly name) a :=
  reads_of_insideContent hkind (by simp) (by simp) trivial fun room _ =>
    (ifRoom_zero room a).symm

/-! ## Results -/

variable {ok : Decoder α} {err : Decoder ε} {e : ε}

theorem reads_result_ok (h : Reads n ok j a) :
    Reads (n + 1) (result ok err) (.object [("Ok", j)]) (.ok a) := by
  refine .of_enter ⟨h.legible, trivial⟩ (congrArg (· + 1) (Nat.max_zero _)) (fun _ => rfl)
    fun p hp => ?_
  have hvalue : (ok p j.node).map (Except.ok (ε := ε)) = ifRoom p.room j.nesting (.ok a) := by
    rw [h.eq p hp, ifRoom_map]
  show ((ok p j.node).map (Except.ok (ε := ε)) >>= fun r => pure r) = _
  rw [hvalue, bind_pure]

theorem reads_result_error (h : Reads n err j e) :
    Reads (n + 1) (result ok err) (.object [("Err", j)]) (.error e) := by
  refine .of_enter ⟨h.legible, trivial⟩ (congrArg (· + 1) (Nat.max_zero _)) (fun _ => rfl)
    fun p hp => ?_
  have hvalue : (err p j.node).map (Except.error (α := α)) = ifRoom p.room j.nesting (.error e) := by
    rw [h.eq p hp, ifRoom_map]
  show ((err p j.node).map (Except.error (α := α)) >>= fun r => pure r) = _
  rw [hvalue, bind_pure]

end Decoder

end Marginalia.Json
