import Marginalia.Proofs.Json.BoundKinds
import Marginalia.Proofs.Json.Reach

/-!
# Json — decoders that insist

A decoder enforces a demand if it takes no node in which the demand is not
met (`Json.Decoder.Enforces`). What it gives may have a property besides,
as long as the arrays in the node are counted in machine words. Each way to
build a decoder has a lemma that takes both from its parts to the whole,
down to a decoder that refers to itself (`Json.Decoder.enforces_fix`).
-/

namespace Marginalia.Json

variable {α β ε : Type} {a : α} {p : Place} {node : Node} {items : List Node}
variable {members : List Member} {closed : Bool} {demand : Demand}

namespace Decoder

variable {outline : Outline} {d : Decoder α} {e : Decoder β} {P Q : α → Prop} {R : β → Prop}

/-- **The decoder only takes what meets the demand**, and what it gives has
the property where no array is too long for a machine word. -/
def Enforces (demand : Demand) (outline : Outline) (d : Decoder α) (P : α → Prop) : Prop :=
  ∀ ⦃p node a⦄, d p node = .ok a → demand.Met outline node ∧ (node.width < wordBound → P a)

/-- Where no place is for the kind, every decoder does. -/
theorem enforces_of_lacks (h : outline.lacks demand.kind = true) :
    d.Enforces demand outline fun _ => True :=
  fun _ node _ _ => ⟨Demand.met_of_lacks h node, fun _ => trivial⟩

theorem lt_of_natBelow {bound k : Nat} {wanted : String}
    (h : natBelow bound wanted p node = .ok k) : k < bound := by
  have hgives : (natBelow bound wanted).Gives .whole .whole fun _ n => n < bound :=
    gives_natBelow bound wanted
  exact hgives h (Nat.le_refl _)

theorem enforces_natBelow (bound : Nat) (wanted : String) :
    (natBelow bound wanted).Enforces demand .whole fun n => n < bound :=
  fun _ node _ hd => ⟨Demand.met_whole node, fun _ => lt_of_natBelow hd⟩

theorem Enforces.map (h : d.Enforces demand outline P) {f : α → β} (hf : ∀ a, P a → R (f a)) :
    (map f d).Enforces demand outline R := by
  intro p node c hd
  obtain ⟨a, ha, rfl⟩ := map_eq_ok.mp hd
  exact ⟨(h ha).1, fun hwidth => hf a ((h ha).2 hwidth)⟩

theorem Enforces.optional (h : d.Enforces demand outline P) :
    (optional d).Enforces demand outline fun o => ∀ a ∈ o, P a := by
  intro p node o hd
  unfold Decoder.optional at hd
  split at hd
  · cases hd
    exact ⟨Demand.met_null outline, fun _ => nofun⟩
  · obtain ⟨a, ha, rfl⟩ := map_eq_ok.mp hd
    refine ⟨(h ha).1, fun hwidth => ?_⟩
    rintro _ ⟨⟩
    exact (h ha).2 hwidth

/-! ## Arrays -/

/-- Every item is decoded, and nothing else. -/
theorem length_of_each {as : List α} (h : each d p items = .ok as) :
    as.length = items.length ∧ ∀ item ∈ items, ∃ a, d p item = .ok a := by
  induction items generalizing as with
  | nil =>
    cases h
    exact ⟨rfl, nofun⟩
  | cons item items ih =>
    obtain ⟨a, ha, h⟩ := bind_eq_ok.mp h
    obtain ⟨as', has, heq⟩ := bind_eq_ok.mp h
    cases heq
    obtain ⟨hlength, hitems⟩ := ih has
    exact ⟨congrArg (· + 1) hlength, List.forall_mem_cons.mpr ⟨⟨a, ha⟩, hitems⟩⟩

theorem Enforces.list (h : d.Enforces demand outline P) {R : List α → Prop}
    (hR : ∀ as, as.length < wordBound → (∀ a ∈ as, P a) → R as) :
    (list d).Enforces demand (.list outline) R := by
  intro p node as hd
  obtain ⟨items, closed, p', rfl, -, has⟩ := list_eq_ok hd
  obtain ⟨hlength, hitems⟩ := length_of_each has
  constructor
  · refine Demand.met_array nofun fun i item hitem => ?_
    obtain ⟨a, ha⟩ := hitems item (List.mem_of_getElem? hitem)
    exact (h ha).1
  · intro hwidth
    obtain ⟨hshort, hnarrow⟩ := Nat.max_lt.mp hwidth
    refine hR as (hlength ▸ hshort) (forall_of_each (n := 0) (P := fun _ => P) ?_ has)
    intro item hmem a ha
    exact (h ha).2 (Nat.lt_of_le_of_lt (Node.width_item_le hmem) hnarrow)

theorem Enforces.pairOf {outline' : Outline} {S : α × β → Prop} (hd : d.Enforces demand outline P)
    (he : e.Enforces demand outline' R) (hS : ∀ x y, P x → R y → S (x, y))
    (name lengthName : String) :
    (pairOf name lengthName d e).Enforces demand (.tuple [outline, outline']) S := by
  intro p node xy hpair
  unfold Decoder.pairOf at hpair
  split at hpair
  · rename_i items closed
    obtain ⟨p', -, hpair⟩ := bind_eq_ok.mp hpair
    obtain ⟨x, hx, hpair⟩ := bind_eq_ok.mp hpair
    obtain ⟨y, hy, hpair⟩ := bind_eq_ok.mp hpair
    obtain ⟨_, _, heq⟩ := bind_eq_ok.mp hpair
    cases heq
    obtain ⟨first, hfirst, hx⟩ := itemAt_eq_ok hx
    obtain ⟨second, hsecond, hy⟩ := itemAt_eq_ok hy
    constructor
    · refine Demand.met_array nofun fun i item hitem => ?_
      match i with
      | 0 =>
        cases hfirst.symm.trans hitem
        exact (hd hx).1
      | 1 =>
        cases hsecond.symm.trans hitem
        exact (he hy).1
      | _ + 2 => exact Demand.met_whole item
    · intro hwidth
      have hnarrow {item : Node} {i : Nat} (hitem : items[i]? = some item) :
          item.width < wordBound :=
        Nat.lt_of_le_of_lt (Node.width_item_le (List.mem_of_getElem? hitem))
          (Nat.max_lt.mp hwidth).2
      exact hS x y ((hd hx).2 (hnarrow hfirst)) ((he hy).2 (hnarrow hsecond))
  · cases hpair

end Decoder

/-! ## Fields -/

namespace Fields

variable {outline : Outline} {d : Decoder α} {P Q : α → Prop} {R : β → Prop}
variable {fs gs : List (String × Outline)}

/-- **The fields only take what meets the demand**, each at its outline, and
what they give has the property where no array is too long for a machine
word. -/
structure Enforces (demand : Demand) (fs : List (String × Outline)) (fields : Fields α)
    (P : α → Prop) : Prop where
  names : fields.names = fs.map Prod.fst
  members : ∀ ⦃p members a⦄, fields.ofMembers p members = .ok a →
    (∀ name o i node, (name, o) ∈ fs → findMember name members = some (i, node) →
      demand.Met o node) ∧ (Node.widthMembers members < wordBound → P a)
  items : ∀ ⦃p items closed index wanted a⦄,
    fields.ofItems p items closed index wanted = .ok a →
    (∀ k field node, fs[k]? = some field → items[index + k]? = some node →
      demand.Met field.2 node) ∧ (Node.widthItems items < wordBound → P a)

/-- A field whose value is decoded, or stands for itself where it is not
given. -/
theorem Enforces.field (h : d.Enforces demand outline P) {name : String} {fields : Fields α}
    (hnames : fields.names = [name])
    (hmembers : ∀ ⦃p members a⦄, fields.ofMembers p members = .ok a →
      (∃ i node, findMember name members = some (i, node) ∧ d p node = .ok a) ∨
        findMember name members = none ∧ P a)
    (hitems : ∀ ⦃p items closed index wanted a⦄,
      fields.ofItems p items closed index wanted = .ok a →
      (∃ node, items[index]? = some node ∧ d p node = .ok a) ∨ items[index]? = none ∧ P a) :
    Enforces demand [(name, outline)] fields P := by
  refine ⟨hnames, fun p members a ha => ?_, fun p items closed index wanted a ha => ?_⟩
  · constructor
    · intro name' o i node hmem hfind
      cases List.mem_singleton.mp hmem
      rcases hmembers ha with ⟨i', node', hfind', ha⟩ | ⟨hnone, -⟩
      · cases hfind'.symm.trans hfind
        exact (h ha).1
      · cases hnone.symm.trans hfind
    · intro hwidth
      rcases hmembers ha with ⟨i, node, hfind, ha⟩ | ⟨-, ha⟩
      · have hmem := mem_of_findMember hfind
        exact (h ha).2 (Nat.lt_of_le_of_lt (Node.width_value_le hmem) hwidth)
      · exact ha
  · constructor
    · intro k field node hk hnode
      cases k with
      | zero =>
        cases hk
        rcases hitems ha with ⟨node', hnode', ha⟩ | ⟨hnone, -⟩
        · cases hnode'.symm.trans hnode
          exact (h ha).1
        · cases hnone.symm.trans hnode
      | succ k => cases hk
    · intro hwidth
      rcases hitems ha with ⟨node, hnode, ha⟩ | ⟨-, ha⟩
      · have hmem := List.mem_of_getElem? hnode
        exact (h ha).2 (Nat.lt_of_le_of_lt (Node.width_item_le hmem) hwidth)
      · exact ha

theorem Enforces.required (h : d.Enforces demand outline P) (name : String) :
    Enforces demand [(name, outline)] (required name d) P :=
  .field h rfl (fun _ _ _ ha => .inl (findMember_of_required ha))
    fun _ _ _ _ _ _ ha => .inl (Decoder.itemAt_eq_ok ha)

theorem Enforces.defaulted (h : d.Enforces demand outline P) (name : String) {value : α}
    (hvalue : P value) : Enforces demand [(name, outline)] (defaulted name d value) P := by
  refine .field h rfl (fun p members a ha => ?_) fun p items closed index wanted a ha => ?_
  · exact (findMember_of_defaulted ha).imp id fun ⟨hnone, heq⟩ => ⟨hnone, heq ▸ hvalue⟩
  · simp only [Fields.defaulted] at ha
    split at ha
    · rename_i hpast
      cases ha
      rw [Bool.and_eq_true, decide_eq_true_eq] at hpast
      exact .inr ⟨List.getElem?_eq_none hpast.1, hvalue⟩
    · exact .inl (Decoder.itemAt_eq_ok ha)

theorem Enforces.optional (h : d.Enforces demand outline P) (name : String) :
    Enforces demand [(name, outline)] (optional name d) fun o => ∀ a ∈ o, P a :=
  .defaulted h.optional name nofun

theorem Enforces.map {fields : Fields α} (h : Enforces demand fs fields P) {f : α → β}
    (hf : ∀ a, P a → R (f a)) : Enforces demand fs (f <$> fields) R := by
  refine ⟨h.names, fun p members c hd => ?_, fun p items closed index wanted c hd => ?_⟩
  · obtain ⟨_, a, hf', ha, rfl⟩ := Placed.both_eq_ok hd
    cases hf'
    exact ⟨(h.members ha).1, fun hwidth => hf a ((h.members ha).2 hwidth)⟩
  · obtain ⟨_, hf', hd⟩ := Decoder.bind_eq_ok.mp hd
    obtain ⟨a, ha, heq⟩ := Decoder.bind_eq_ok.mp hd
    cases hf'
    cases heq
    have hitems : fields.ofItems p items closed index wanted = .ok a := ha
    exact ⟨(h.items hitems).1, fun hwidth => hf a ((h.items hitems).2 hwidth)⟩

/-- One field after another: each argument that has its property takes the
function to what has the property wanted. -/
theorem Enforces.seq {ff : Fields (α → β)} {fa : Fields α}
    (hf : Enforces demand fs ff fun f => ∀ a, Q a → R (f a)) (ha : Enforces demand gs fa Q) :
    Enforces demand (fs ++ gs) (ff <*> fa) R := by
  refine ⟨?_, fun p members c hd => ?_, fun p items closed index wanted c hd => ?_⟩
  · rw [List.map_append, ← hf.names, ← ha.names]
    rfl
  · obtain ⟨f, a, hf', ha', rfl⟩ := Placed.both_eq_ok hd
    constructor
    · intro name o i node hmem hfind
      rcases List.mem_append.mp hmem with hmem | hmem
      · exact (hf.members hf').1 name o i node hmem hfind
      · exact (ha.members ha').1 name o i node hmem hfind
    · exact fun hwidth => (hf.members hf').2 hwidth a ((ha.members ha').2 hwidth)
  · obtain ⟨f, hf', hd⟩ := Decoder.bind_eq_ok.mp hd
    obtain ⟨a, ha', heq⟩ := Decoder.bind_eq_ok.mp hd
    cases heq
    have hlength : ff.names.length = fs.length := by rw [hf.names, List.length_map]
    constructor
    · intro k field node hk hnode
      rcases Nat.lt_or_ge k fs.length with hfirst | hsecond
      · rw [List.getElem?_append_left hfirst] at hk
        exact (hf.items hf').1 k field node hk hnode
      · rw [List.getElem?_append_right hsecond] at hk
        refine (ha.items ha').1 (k - fs.length) field node hk ?_
        rw [hlength, Nat.add_assoc, Nat.add_sub_cancel' hsecond]
        exact hnode
    · exact fun hwidth => (hf.items hf').2 hwidth a ((ha.items ha').2 hwidth)

end Fields

namespace Decoder

variable {outline : Outline} {d : Decoder α} {P : α → Prop} {fs : List (String × Outline)}
variable {fields : Fields α} {name type : String}

theorem enforces_record (h : fields.Enforces demand fs P) :
    (record name fields).Enforces demand (.record fs) P := by
  intro p node a hd
  unfold record at hd
  split at hd
  · rename_i items closed
    obtain ⟨p', -, hd⟩ := bind_eq_ok.mp hd
    obtain ⟨wanted, ha⟩ := Fields.ofItems_of_ofArray hd
    obtain ⟨hmet, hgives⟩ := h.items ha
    refine ⟨Demand.met_array nofun fun i item hitem => ?_, fun hwidth =>
      hgives (Nat.max_lt.mp hwidth).2⟩
    show demand.Met ((fs[i]?.map Prod.snd).getD .whole) item
    cases hfield : fs[i]? with
    | none => exact Demand.met_whole item
    | some field => exact hmet i field item hfield (by rwa [Nat.zero_add])
  · rename_i members closed
    obtain ⟨p', -, hd⟩ := bind_eq_ok.mp hd
    obtain ⟨hmet, hgives⟩ := h.members (Fields.ofMembers_of_ofObject hd)
    refine ⟨Demand.met_object nofun fun key i value inner hvalue hinner => ?_, hgives⟩
    exact hmet key inner i value (Outline.mem_of_lookup hinner) hvalue
  · cases hd

end Decoder

end Marginalia.Json
