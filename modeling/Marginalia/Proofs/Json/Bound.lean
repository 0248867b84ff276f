import Marginalia.Json.Tree
import Marginalia.Proofs.Json.Outline

/-!
# Json — what a decoder gives

What a decoder gives is bounded by what is known of the node, and by the
brackets that may still open (`Json.Decoder.Gives`). Each way to build a
decoder has a lemma that takes such a bound from its parts to the whole.
A property of a record is asked of its constructor: whenever each argument
has what its field gives, the record has the property
(`Json.Fields.Gives.seq`).
-/

namespace Marginalia.Json

variable {α β γ ε : Type} {n b : Nat} {a : α} {name : String} {p : Place} {node : Node}
variable {items : List Node} {members : List Member} {closed : Bool}

namespace Decoder

variable {root outline : Outline} {d : Decoder α} {e : Decoder β} {P Q : Nat → α → Prop}
variable {R : Nat → β → Prop}

/-- **What the decoder gives has the property** at every bound that covers
the brackets that may still open, or those of what is known of the
node. -/
def Gives (root outline : Outline) (d : Decoder α) (P : Nat → α → Prop) : Prop :=
  ∀ ⦃p node a b⦄, d p node = .ok a → min p.room (outline.depth root node) ≤ b → P b a

theorem Gives.mono (h : d.Gives root outline P) (hPQ : ∀ b a, P b a → Q b a) :
    d.Gives root outline Q :=
  fun _ _ a b hd hb => hPQ b a (h hd hb)

/-- Nothing need be said of what is given. -/
theorem gives_trivial : d.Gives root outline fun _ _ => True :=
  fun _ _ _ _ _ _ => trivial

theorem bind_eq_ok {x : Except ε α} {f : α → Except ε β} {b : β} :
    (x >>= f) = .ok b ↔ ∃ a, x = .ok a ∧ f a = .ok b := by
  cases x with
  | error e => exact ⟨nofun, fun ⟨_, h, _⟩ => nomatch h⟩
  | ok a => exact ⟨fun h => ⟨a, rfl, h⟩, fun ⟨_, h, hf⟩ => Except.ok.inj h ▸ hf⟩

theorem map_eq_ok {x : Except ε α} {f : α → β} {b : β} :
    x.map f = .ok b ↔ ∃ a, x = .ok a ∧ f a = b := by
  cases x with
  | error e => exact ⟨nofun, fun ⟨_, h, _⟩ => nomatch h⟩
  | ok a =>
    exact ⟨fun h => ⟨a, rfl, Except.ok.inj h⟩, fun ⟨_, h, hf⟩ => by cases h; exact congrArg _ hf⟩

theorem enter_eq_ok {p' : Place} (h : enter p = .ok p') :
    p.room = p'.room + 1 ∧ p'.held = p.held := by
  obtain ⟨_ | room, held⟩ := p
  · cases h
  · cases h
    exact ⟨rfl, rfl⟩

/-! ## Plain values -/

theorem gives_natBelow (bound : Nat) (wanted : String) :
    (natBelow bound wanted).Gives root outline fun _ n => n < bound := by
  intro p node n b hd _
  unfold natBelow at hd
  split at hd
  · split at hd
    · split at hd
      · rename_i k hrange
        cases hd
        omega
      · cases hd
    · cases hd
  · cases hd

theorem gives_size : size.Gives root outline fun _ n => n < wordBound :=
  gives_natBelow wordBound "usize"

theorem Gives.map (h : d.Gives root outline P) {f : α → β} (hf : ∀ b a, P b a → R b (f a)) :
    (map f d).Gives root outline R := by
  intro p node c b hd hb
  obtain ⟨a, ha, rfl⟩ := map_eq_ok.mp hd
  exact hf b a (h ha hb)

/-- What a check lets pass was decoded before. -/
theorem check_eq_ok {f : α → Except String β} {c : β} (h : check d f p node = .ok c) :
    ∃ a, d p node = .ok a ∧ f a = .ok c := by
  unfold check at h
  split at h
  · cases h
  · rename_i a ha
    split at h
    · cases h
    · rename_i c' hc
      cases h
      exact ⟨a, ha, hc⟩

theorem Gives.optional (h : d.Gives root outline P) :
    (optional d).Gives root outline fun b o => ∀ a ∈ o, P b a := by
  intro p node o b hd hb
  unfold Decoder.optional at hd
  split at hd
  · cases hd
    exact nofun
  · obtain ⟨a, ha, rfl⟩ := map_eq_ok.mp hd
    rintro _ ⟨⟩
    exact h ha hb

/-! ## Arrays -/

/-- Inside an array there is a bracket less to speak of. -/
theorem bound_of_array {room : Nat}
    (hb : min (room + 1) (outline.depth root (.array items closed)) ≤ b) :
    ∃ c, b = c + 1 ∧ ∀ i item, items[i]? = some item →
      min room (((outline.within root).item items i).depth root item) ≤ c := by
  obtain ⟨k, hk⟩ : ∃ k, outline.depth root (.array items closed) = k + 1 := ⟨_, rfl⟩
  have hitems := Outline.depth_array_le.mp (Nat.le_of_eq hk)
  refine ⟨b - 1, by omega, fun i item hitem => ?_⟩
  have := hitems i item hitem
  omega

/-- Inside an object there is a bracket less to speak of. -/
theorem bound_of_object {room : Nat}
    (hb : min (room + 1) (outline.depth root (.object members closed)) ≤ b) :
    ∃ c, b = c + 1 ∧ ∀ key value, (some key, value) ∈ members →
      ∀ o ∈ (outline.within root).member? members key, min room (o.depth root value) ≤ c := by
  obtain ⟨k, hk⟩ : ∃ k, outline.depth root (.object members closed) = k + 1 := ⟨_, rfl⟩
  have hvalues := Outline.depth_object_le.mp (Nat.le_of_eq hk)
  refine ⟨b - 1, by omega, fun key value hmem o ho => ?_⟩
  have := hvalues key value hmem o ho
  omega

/-- An object is bounded by the values of its known keys. -/
theorem bound_object {room c : Nat}
    (h : ∀ key value, (some key, value) ∈ members →
      ∀ o ∈ (outline.within root).member? members key, min room (o.depth root value) ≤ c) :
    min (room + 1) (outline.depth root (.object members closed)) ≤ c + 1 := by
  rcases Nat.lt_or_ge c room with hlt | hge
  · have hdepth : outline.depth root (.object members closed) ≤ c + 1 :=
      Outline.depth_object_le.mpr fun key value hmem o ho => by
        have := h key value hmem o ho
        omega
    omega
  · omega

/-- An array is bounded by its items. -/
theorem bound_array {room c : Nat}
    (h : ∀ i item, items[i]? = some item →
      min room (((outline.within root).item items i).depth root item) ≤ c) :
    min (room + 1) (outline.depth root (.array items closed)) ≤ c + 1 := by
  rcases Nat.lt_or_ge c room with hlt | hge
  · have hdepth : outline.depth root (.array items closed) ≤ c + 1 :=
      Outline.depth_array_le.mpr fun i item hitem => by
        have := h i item hitem
        omega
    omega
  · omega

theorem forall_of_each {as : List α} (h : ∀ item ∈ items, ∀ a, d p item = .ok a → P n a)
    (has : each d p items = .ok as) : ∀ a ∈ as, P n a := by
  induction items generalizing as with
  | nil =>
    cases has
    exact List.forall_mem_nil _
  | cons item items ih =>
    rw [List.forall_mem_cons] at h
    obtain ⟨a, ha, has⟩ := bind_eq_ok.mp has
    obtain ⟨as', has', heq⟩ := bind_eq_ok.mp has
    cases heq
    exact List.forall_mem_cons.mpr ⟨h.1 a ha, ih h.2 has'⟩

theorem list_eq_ok {as : List α} (h : list d p node = .ok as) : ∃ items closed p',
    node = .array items closed ∧ enter p = .ok p' ∧ each d p' items = .ok as := by
  unfold Decoder.list at h
  split at h
  · obtain ⟨p', hp', h⟩ := bind_eq_ok.mp h
    obtain ⟨as', has, h⟩ := bind_eq_ok.mp h
    split at h
    · cases h
      exact ⟨_, _, p', rfl, hp', has⟩
    · cases h
  · cases h

theorem Gives.list (h : d.Gives root outline P) {R : Nat → List α → Prop}
    (hR : ∀ b as, (∀ a ∈ as, P b a) → R (b + 1) as) :
    (list d).Gives root (.list outline) R := by
  intro p node as b hd hb
  obtain ⟨items, closed, p', rfl, hp', has⟩ := list_eq_ok hd
  rw [(enter_eq_ok hp').1] at hb
  obtain ⟨c, rfl, hitems⟩ := bound_of_array hb
  refine hR c as (forall_of_each (fun item hmem a ha => ?_) has)
  obtain ⟨i, hi⟩ := List.mem_iff_getElem?.mp hmem
  exact h ha (hitems i item hi)

theorem itemAt_eq_ok {index : Nat} {wanted : String}
    (h : itemAt d p items closed index wanted = .ok a) :
    ∃ item, items[index]? = some item ∧ d p item = .ok a := by
  unfold itemAt at h
  split at h
  · rename_i item hitem
    exact ⟨item, hitem, h⟩
  · split at h <;> cases h

theorem Gives.pairOf {outline' : Outline} {S : Nat → α × β → Prop} (hd : d.Gives root outline P)
    (he : e.Gives root outline' R) (hS : ∀ b x y, P b x → R b y → S (b + 1) (x, y))
    (name lengthName : String) :
    (pairOf name lengthName d e).Gives root (.tuple [outline, outline']) S := by
  intro p node xy b hpair hb
  unfold Decoder.pairOf at hpair
  split at hpair
  · rename_i items closed
    obtain ⟨p', hp', hpair⟩ := bind_eq_ok.mp hpair
    obtain ⟨x, hx, hpair⟩ := bind_eq_ok.mp hpair
    obtain ⟨y, hy, hpair⟩ := bind_eq_ok.mp hpair
    obtain ⟨_, _, heq⟩ := bind_eq_ok.mp hpair
    cases heq
    rw [(enter_eq_ok hp').1] at hb
    obtain ⟨c, rfl, hitems⟩ := bound_of_array hb
    obtain ⟨first, hfirst, hx⟩ := itemAt_eq_ok hx
    obtain ⟨second, hsecond, hy⟩ := itemAt_eq_ok hy
    exact hS c x y (hd hx (hitems 0 first hfirst)) (he hy (hitems 1 second hsecond))
  · cases hpair

end Decoder

/-! ## Fields -/

theorem mem_of_findMember {i : Nat} (h : findMember name members = some (i, node)) :
    (some name, node) ∈ members := by
  induction members generalizing i with
  | nil => cases h
  | cons member members ih =>
    obtain ⟨key, value⟩ := member
    rw [findMember] at h
    split at h
    · rename_i hkey
      cases h
      exact hkey ▸ List.mem_cons_self
    · obtain ⟨⟨i', value'⟩, hmem, heq⟩ := Option.map_eq_some_iff.mp h
      cases heq
      exact List.mem_cons_of_mem _ (ih hmem)

theorem lookup_eq_some {fields : List (String × γ)} {x : γ} (hnodup : (fields.map Prod.fst).Nodup)
    (h : (name, x) ∈ fields) : fields.lookup name = some x := by
  induction fields with
  | nil => cases h
  | cons field fields ih =>
    obtain ⟨key, y⟩ := field
    rw [List.map_cons, List.nodup_cons] at hnodup
    rcases List.mem_cons.mp h with heq | hmem
    · obtain ⟨rfl, rfl⟩ := Prod.mk.inj heq
      simp
    · have hne : name ≠ key := by
        rintro rfl
        exact hnodup.1 (List.mem_map.mpr ⟨_, hmem, rfl⟩)
      rw [List.lookup_cons, beq_false_of_ne hne]
      exact ih hnodup.2 hmem

theorem Placed.both_eq_ok {f : Placed (α → β)} {x : Placed α} {y : β}
    (h : Placed.both f x = .ok y) : ∃ g a, f = .ok g ∧ x = .ok a ∧ g a = y := by
  match f, x with
  | .ok g, .ok a => exact ⟨g, a, rfl, rfl, Except.ok.inj h⟩
  | .error _, .ok _ => cases h
  | .ok _, .error _ => cases h
  | .error _, .error _ => cases h

theorem Placed.ofResult_eq_ok {i : Nat} {x : Except Fault α} (h : Placed.ofResult i x = .ok a) :
    x = .ok a := by
  cases x with
  | ok _ => cases h; rfl
  | error _ => cases h

/-- What is wanted of the members, when nothing else there was objected
to. -/
theorem Placed.of_around {around : Placed Unit} {r : Placed α}
    (h : (Placed.both (around.map fun _ a => a) r).result = .ok a) : r = .ok a := by
  cases hboth : Placed.both (around.map fun _ a => a) r with
  | error e =>
    rw [hboth] at h
    cases h
  | ok a' =>
    rw [hboth] at h
    cases h
    obtain ⟨g, a', hg, ha, rfl⟩ := Placed.both_eq_ok hboth
    obtain ⟨_, _, rfl⟩ := Decoder.map_eq_ok.mp hg
    exact ha

namespace Fields

variable {root outline : Outline} {d : Decoder α} {P Q : Nat → α → Prop} {R : Nat → β → Prop}
variable {fs gs : List (String × Outline)}

/-- **What the fields give has the property** at every bound that covers
what is known of each of them. -/
structure Gives (root : Outline) (fs : List (String × Outline)) (fields : Fields α)
    (P : Nat → α → Prop) : Prop where
  names : fields.names = fs.map Prod.fst
  members : ∀ ⦃p members a b⦄, fields.ofMembers p members = .ok a →
    (∀ name o i node, (name, o) ∈ fs → findMember name members = some (i, node) →
      min p.room (o.depth root node) ≤ b) → P b a
  items : ∀ ⦃p items closed index wanted a b⦄,
    fields.ofItems p items closed index wanted = .ok a →
    (∀ k field node, fs[k]? = some field → items[index + k]? = some node →
      min p.room (field.2.depth root node) ≤ b) → P b a

theorem findMember_of_required (h : (required name d).ofMembers p members = .ok a) :
    ∃ i node, findMember name members = some (i, node) ∧ d p node = .ok a := by
  simp only [Fields.required] at h
  split at h
  · rename_i i node hfind
    exact ⟨i, node, hfind, Placed.ofResult_eq_ok h⟩
  · cases h

/-- A field that may be left out is decoded, or stands for itself. -/
theorem findMember_of_defaulted {value : α}
    (h : (defaulted name d value).ofMembers p members = .ok a) :
    (∃ i node, findMember name members = some (i, node) ∧ d p node = .ok a) ∨
      findMember name members = none ∧ a = value := by
  simp only [Fields.defaulted] at h
  split at h
  · rename_i i node hfind
    exact .inl ⟨i, node, hfind, Placed.ofResult_eq_ok h⟩
  · rename_i hnone
    cases h
    exact .inr ⟨hnone, rfl⟩

theorem Gives.required (h : d.Gives root outline P) (name : String) :
    Gives root [(name, outline)] (required name d) P := by
  refine ⟨rfl, fun p members a b hd hb => ?_, fun p items closed index wanted a b hd hb => ?_⟩
  · obtain ⟨i, node, hfind, ha⟩ := findMember_of_required hd
    exact h ha (hb name outline i node (List.mem_singleton.mpr rfl) hfind)
  · obtain ⟨node, hnode, ha⟩ := Decoder.itemAt_eq_ok hd
    exact h ha (hb 0 (name, outline) node rfl hnode)

/-- The value that stands for a field that is not there has to have the
property at every bound. -/
theorem Gives.defaulted (h : d.Gives root outline P) (name : String) {value : α}
    (hvalue : ∀ b, P b value) : Gives root [(name, outline)] (defaulted name d value) P := by
  refine ⟨rfl, fun p members a b hd hb => ?_, fun p items closed index wanted a b hd hb => ?_⟩
  · rcases findMember_of_defaulted hd with ⟨i, node, hfind, ha⟩ | ⟨-, rfl⟩
    · exact h ha (hb name outline i node (List.mem_singleton.mpr rfl) hfind)
    · exact hvalue b
  · simp only [Fields.defaulted] at hd
    split at hd
    · cases hd
      exact hvalue b
    · obtain ⟨node, hnode, ha⟩ := Decoder.itemAt_eq_ok hd
      exact h ha (hb 0 (name, outline) node rfl hnode)

theorem Gives.optional (h : d.Gives root outline P) (name : String) :
    Gives root [(name, outline)] (optional name d) fun b o => ∀ a ∈ o, P b a :=
  .defaulted h.optional name fun _ => nofun

theorem Gives.map {fields : Fields α} (h : Gives root fs fields P) {f : α → β}
    (hf : ∀ b a, P b a → R b (f a)) : Gives root fs (f <$> fields) R := by
  refine ⟨h.names, fun p members c b hd hb => ?_, fun p items closed index wanted c b hd hb => ?_⟩
  · obtain ⟨_, a, hf', ha, rfl⟩ := Placed.both_eq_ok hd
    cases hf'
    exact hf b a (h.members ha hb)
  · obtain ⟨_, hf', hd⟩ := Decoder.bind_eq_ok.mp hd
    obtain ⟨a, ha, heq⟩ := Decoder.bind_eq_ok.mp hd
    cases hf'
    cases heq
    have hitems : fields.ofItems p items closed index wanted = .ok a := ha
    exact hf b a (h.items hitems hb)

/-- One field after another: each argument that has its property takes the
function to what has the property wanted. -/
theorem Gives.seq {ff : Fields (α → β)} {fa : Fields α}
    (hf : Gives root fs ff fun b f => ∀ a, Q b a → R b (f a)) (ha : Gives root gs fa Q) :
    Gives root (fs ++ gs) (ff <*> fa) R := by
  refine ⟨?_, fun p members c b hd hb => ?_, fun p items closed index wanted c b hd hb => ?_⟩
  · rw [List.map_append, ← hf.names, ← ha.names]
    rfl
  · obtain ⟨f, a, hf', ha', rfl⟩ := Placed.both_eq_ok hd
    exact hf.members hf' (fun name o i node hmem => hb name o i node (List.mem_append_left _ hmem))
      a (ha.members ha' fun name o i node hmem =>
        hb name o i node (List.mem_append_right _ hmem))
  · obtain ⟨f, hf', hd⟩ := Decoder.bind_eq_ok.mp hd
    obtain ⟨a, ha', heq⟩ := Decoder.bind_eq_ok.mp hd
    cases heq
    have hlength : ff.names.length = fs.length := by rw [hf.names, List.length_map]
    refine hf.items hf' (fun k field node hk => ?_) a (ha.items ha' fun k field node hk hnode => ?_)
    · exact hb k field node (List.getElem?_append_left (List.getElem?_eq_some_iff.mp hk).1 ▸ hk)
    · refine hb (fs.length + k) field node ?_ ?_
      · rwa [List.getElem?_append_right (Nat.le_add_right _ _), Nat.add_sub_cancel_left]
      · rwa [hlength, Nat.add_assoc] at hnode

theorem ofMembers_of_ofObject {fields : Fields α} (h : fields.ofObject p members closed = .ok a) :
    fields.ofMembers p members = .ok a :=
  Placed.of_around h

/-- The fields of an object, of which each key is given its outline. -/
theorem Gives.ofObject {fields : Fields α} (hnodup : (fs.map Prod.fst).Nodup)
    (h : fields.Gives root fs P) (ha : fields.ofObject p members closed = .ok a)
    (hb : ∀ key value, (some key, value) ∈ members →
      ∀ o ∈ fs.lookup key, min p.room (o.depth root value) ≤ b) : P b a :=
  h.members (ofMembers_of_ofObject ha) fun name o _ node hmem hfind =>
    hb name node (mem_of_findMember hfind) o (lookup_eq_some hnodup hmem)

theorem ofItems_of_ofArray {fields : Fields α} {what : String}
    (h : fields.ofArray what p items closed = .ok a) :
    ∃ wanted, fields.ofItems p items closed 0 wanted = .ok a := by
  obtain ⟨a', ha, h⟩ := Decoder.bind_eq_ok.mp h
  obtain ⟨_, _, heq⟩ := Decoder.bind_eq_ok.mp h
  cases heq
  exact ⟨_, ha⟩

end Fields

namespace Decoder

variable {root outline : Outline} {d : Decoder α} {e : Decoder β} {P : Nat → α → Prop}
variable {fs : List (String × Outline)} {fields : Fields α} {type : String}

theorem gives_record (hnodup : (fs.map Prod.fst).Nodup)
    (h : fields.Gives root fs fun b => P (b + 1)) :
    (record name fields).Gives root (.record fs) P := by
  intro p node a b hd hb
  unfold record at hd
  split at hd
  · rename_i items closed
    obtain ⟨p', hp', hd⟩ := bind_eq_ok.mp hd
    obtain ⟨wanted, ha⟩ := Fields.ofItems_of_ofArray hd
    rw [(enter_eq_ok hp').1] at hb
    obtain ⟨c, rfl, hitems⟩ := bound_of_array hb
    refine h.items ha fun k field node hk hnode => ?_
    rw [Nat.zero_add] at hnode
    have hitem : min p'.room (((fs[k]?.map Prod.snd).getD .whole).depth root node) ≤ c :=
      hitems k node hnode
    rwa [hk] at hitem
  · rename_i members closed
    obtain ⟨p', hp', hd⟩ := bind_eq_ok.mp hd
    rw [(enter_eq_ok hp').1] at hb
    obtain ⟨c, rfl, hvalues⟩ := bound_of_object hb
    exact Fields.Gives.ofObject (P := fun b => P (b + 1)) hnodup h hd hvalues
  · cases hd

end Decoder

/-! ## Values and their messages -/

/-- The value has a property, and its message nests that deep at most. -/
def Within (S : α → Prop) (f : α → Json) (b : Nat) (a : α) : Prop := S a ∧ (f a).nesting ≤ b

variable {S : α → Prop} {f : α → Json} {m : Nat} {as : List α} {j : Json} {kind : String}

theorem Within.mono (h : Within S f b a) (hb : b ≤ m) : Within S f m a :=
  ⟨h.1, Nat.le_trans h.2 hb⟩

/-- Where a bracket is open anyway, it is not counted twice. -/
theorem Within.of_open (h : Within S f (max b 1) a) (hopen : 1 ≤ b) : Within S f b a :=
  h.mono (Nat.max_le.mpr ⟨Nat.le_refl b, hopen⟩)

theorem nestingItems_map_le :
    nestingItems (as.map f) ≤ b ↔ ∀ a ∈ as, (f a).nesting ≤ b := by
  induction as with
  | nil => simp [nestingItems]
  | cons a as ih => rw [List.map_cons, nestingItems, Nat.max_le, ih, List.forall_mem_cons]

theorem nesting_list_le : (Json.list f as).nesting ≤ b + 1 ↔ ∀ a ∈ as, (f a).nesting ≤ b := by
  rw [Json.list, nesting, Nat.add_le_add_iff_right, nestingItems_map_le]

@[simp] theorem nesting_tagged (kind : String) (j : Json) :
    (tagged kind j).nesting = j.nesting + 1 := by
  simp [tagged, nesting, nestingMembers]

theorem nesting_given_le {o : Option α} :
    nestingMembers (given kind f o) ≤ b ↔ ∀ a ∈ o, (f a).nesting ≤ b := by
  cases o <;> simp [given, nestingMembers]

/-- A list of values has what its items have, a bracket further out. -/
theorem Decoder.Gives.listWithin {root outline : Outline} {d : Decoder α}
    (h : d.Gives root outline (Within S f)) :
    (Decoder.list d).Gives root (.list outline) (Within (∀ a ∈ ·, S a) (Json.list f)) :=
  h.list fun _ _ has =>
    ⟨fun a ha => (has a ha).1, nesting_list_le.mpr fun a ha => (has a ha).2⟩

/-- A field that has a value even if it is not given: that value may take
one bracket. -/
theorem Fields.Gives.defaultedWithin {root outline : Outline} {d : Decoder α}
    (h : d.Gives root outline (Within S f)) (name : String) {value : α}
    (hvalue : Within S f 1 value) :
    Fields.Gives root [(name, outline)] (Fields.defaulted name d value)
      fun b => Within S f (max b 1) :=
  .defaulted (h.mono fun b _ ha => ha.mono (Nat.le_max_left b 1)) name
    fun b => hvalue.mono (Nat.le_max_right b 1)

end Marginalia.Json
