import Marginalia.Proofs.Json.EnforceKinds
import Marginalia.Proofs.State.Bound
import Marginalia.Proofs.State.Window

/-!
# State — excerpts that say too little

An excerpt in a message may say that the sequence is shorter than what is
given of it (`Excerpt.Overfull`). No decoder of excerpts takes it
(`Excerpt.lt_of_overfull`), and so nothing that one is a part of is decoded
(`Value.enforces`). The length of an excerpt that is decoded is a machine
word: it was read as one, or it counts items of the message.
-/

namespace Marginalia

open Json Json.Decoder

namespace Excerpt

variable {α : Type} {d : Decoder α} {item : Outline} {P : α → Prop} {p : Place} {node : Node}
variable {front : List α} {last : Option α} {length : Nat} {e : Excerpt α} {members : List Member}
variable {t : List α × Option α × Nat}

/-! ## Too many elements -/

/-- How many elements stand under `last`. -/
def lastGiven (members : List Member) : Nat :=
  match findMember "last" members with
  | none | some (_, .null) => 0
  | some _ => 1

/-- More elements are given than there are said to be. -/
def Exceeds (members : List Member) : Prop :=
  ∃ i items closed j num length, findMember "prefix" members = some (i, .array items closed) ∧
    findMember "len" members = some (j, .number num) ∧ num.whole? = some length ∧
    length < (items.length + lastGiven members : Nat)

/-- The node names the kind of an excerpt that may lack elements. -/
def NamesOnly (tag : Node) : Prop :=
  Outline.pick [("All", false), ("Only", true)] tag = some true

/-- **An excerpt in a message that gives more elements than it says there
are**, with its kind before what belongs to it, or under the two keys. -/
inductive Overfull : Node → Prop
  | pair {items : List Node} {tag : Node} {members : List Member} {closed closed' : Bool} :
      items[0]? = some tag → items[1]? = some (.object members closed) → NamesOnly tag →
      Exceeds members → Overfull (.array items closed')
  | members {outer members : List Member} {tag : Node} {i j : Nat} {closed closed' : Bool} :
      findMember "type" outer = some (i, tag) →
      findMember "value" outer = some (j, .object members closed) → NamesOnly tag →
      Exceeds members → Overfull (.object outer closed')

/-- The parts of an excerpt that may lack elements. -/
def onlyFields (d : Decoder α) : Fields (List α × Option α × Nat) :=
  (fun front last length => (front, last, length)) <$>
    .required "prefix" (.list d) <*> .optional "last" d <*> .required "len" .size

/-- What is decoded has as many elements as are given. -/
theorem lt_of_exceeds (h : (onlyFields d).ofMembers p members = .ok t) (hover : Exceeds members) :
    t.2.2 < t.1.length + t.2.1.toList.length := by
  obtain ⟨i, items, closed, j, num, length, hprefix, hlen, hwhole, hlt⟩ := hover
  obtain ⟨f, n, hf, hn, rfl⟩ := Placed.both_eq_ok h
  obtain ⟨g, last, hg, hlast, rfl⟩ := Placed.both_eq_ok hf
  obtain ⟨_, front, hmk, hfront, rfl⟩ := Placed.both_eq_ok hg
  cases hmk
  have hcount : front.length = items.length := by
    obtain ⟨_, node, hfind, hdecode⟩ := Fields.findMember_of_required hfront
    cases hprefix.symm.trans hfind
    obtain ⟨items', _, p', heq, -, heach⟩ := list_eq_ok hdecode
    cases heq
    exact (length_of_each heach).1
  have hextra : last.toList.length = lastGiven members := by
    rcases Fields.findMember_of_defaulted hlast with ⟨_, node, hfind, hdecode⟩ | ⟨hnone, rfl⟩
    · rw [lastGiven, hfind]
      unfold Decoder.optional at hdecode
      split at hdecode
      · cases hdecode
        rfl
      · obtain ⟨a, -, rfl⟩ := map_eq_ok.mp hdecode
        cases node <;> first | rfl | contradiction
    · rw [lastGiven, hnone]
      rfl
  have hsize : length = n := by
    obtain ⟨_, node, hfind, hdecode⟩ := Fields.findMember_of_required hn
    cases hlen.symm.trans hfind
    simp only [size, natBelow, hwhole] at hdecode
    split at hdecode
    · cases hdecode
      omega
    · cases hdecode
  dsimp only
  omega

/-- **What is read of an overfull excerpt** is more than it says. -/
theorem lt_of_overfull (h : Decoder.beside "Wire" (parts d) p node = .ok t)
    (hover : Overfull node) : t.2.2 < t.1.length + t.2.1.toList.length := by
  -- whichever way the kind is named, it is the second one of the two
  have hkinds : Kinds.Follow
      (fun only content => only = true → content = Content.fields (onlyFields d)) (parts d)
      [("All", false), ("Only", true)] :=
    .cons ⟨rfl, nofun⟩ (.cons ⟨rfl, fun _ => rfl⟩ .nil)
  have hcontent {p' : Place} {only : Bool} {tag : Node} {members : List Member} {closed : Bool}
      {name : String} {content : Content (List α × Option α × Nat)}
      (hpick : Outline.pick [("All", false), ("Only", true)] tag = some only)
      (hfields : only = true → content = .fields (onlyFields d)) (hnames : NamesOnly tag)
      (ht : besideContent "Wire" name content p' (.object members closed) = .ok t)
      (hexceeds : Exceeds members) : t.2.2 < t.1.length + t.2.1.toList.length := by
    obtain rfl := Option.some.inj (hpick.symm.trans hnames)
    rw [hfields rfl] at ht
    obtain ⟨p'', -, ht⟩ := bind_eq_ok.mp ht
    exact lt_of_exceeds (Fields.ofMembers_of_ofObject ht) hexceeds
  obtain ⟨room, -, htakes⟩ := takesBeside_of_ok h
  cases hover with
  | pair htag hvalue hnames hexceeds =>
    cases htakes with
    | pair htag' hvalue' hkind ht =>
      cases htag.symm.trans htag'
      cases hvalue.symm.trans hvalue'
      obtain ⟨only, hpick, hfields⟩ := pick_of_kindItem hkinds hkind
      exact hcontent hpick hfields hnames ht hexceeds
  | members htag hvalue hnames hexceeds =>
    cases htakes with
    | members htag' hvalue' hkind ht =>
      cases htag.symm.trans htag'
      cases hvalue.symm.trans hvalue'
      obtain ⟨only, hpick, hfields⟩ := pick_of_kindName hkinds hkind
      exact hcontent hpick hfields hnames ht hexceeds
    | alone _ hnone _ => cases hnone.symm.trans hvalue

/-! ## Nothing of the kind is decoded -/

/-- **No excerpt may be overfull**, wherever one may stand. -/
def demand (root : Outline) : Demand := ⟨root, "Only", fun node => ¬Overfull node, nofun⟩

theorem ofParts?_eq_ok (h : ofParts? front last length = .ok e) :
    front.length + last.toList.length ≤ length ∧ e.length = length ∧
      e.front ++ e.last.toList = front ++ last.toList := by
  simp only [ofParts?] at h
  split at h
  · cases h
  · rename_i hle
    split at h
    · rename_i heq
      cases h
      exact ⟨Nat.not_lt.mp hle, by simp [complete, ← heq], by simp [complete]⟩
    · cases h
      exact ⟨Nat.not_lt.mp hle, rfl, rfl⟩

/-- **No excerpt that is decoded was overfull**, and its length is a machine
word. -/
theorem enforces {root : Outline} (h : d.Enforces (demand root) item P) :
    (decoder d).Enforces (demand root) (outline item) fun e =>
      e.length < wordBound ∧ ∀ a ∈ e.front ++ e.last.toList, P a := by
  have hkinds : (parts d).Follow (Content.Enforces (demand root) fun t =>
      t.2.2 < wordBound ∧ ∀ a ∈ t.1 ++ t.2.1.toList, P a)
      [("All", .list item),
        ("Only", .record [("prefix", .list item), ("last", item), ("len", .whole)])] := by
    refine .cons ⟨rfl, .single ?all⟩ (.cons ⟨rfl, .record ?only⟩ .nil)
    case all =>
      refine (h.list (R := fun items => items.length < wordBound ∧ ∀ a ∈ items, P a)
        fun items hlength hitems => ⟨hlength, hitems⟩).map ?_
      rintro items ⟨hlength, hitems⟩
      exact ⟨hlength, by simpa using hitems⟩
    case only =>
      refine .seq (.seq (.map (.required (h.list (R := fun items => ∀ a ∈ items, P a)
        fun _ _ hitems => hitems) _) ?_) (.optional h _))
        (.required (enforces_natBelow wordBound "usize") _)
      intro front hfront last hlast length hlength
      refine ⟨hlength, List.forall_mem_append.mpr ⟨hfront, fun a ha => ?_⟩⟩
      exact hlast a (Option.mem_toList.mp ha)
  intro p node e hd
  obtain ⟨t, ht, he⟩ := decoder_eq_ok hd
  -- the parts would be decoded; it is the check after them that refuses
  obtain ⟨hle, hlength, helements⟩ := ofParts?_eq_ok he
  have hfit : ¬Overfull node := by
    intro hover
    have hlt := lt_of_overfull ht hover
    omega
  obtain ⟨hmet, hgives⟩ := of_beside hkinds ht fun _ => hfit
  refine ⟨hmet, fun hwidth => ?_⟩
  dsimp only
  rw [hlength, helements]
  exact hgives hwidth

end Excerpt

/-! ## Values -/

namespace Value

/-- No excerpt in a value may be overfull. -/
def demand : Demand := Excerpt.demand outline

theorem enforces_fields {inner : Decoder Value} {item : Outline}
    (h : inner.Enforces demand item Sized) :
    (Decoder.list (.pair .string inner)).Enforces demand (.list (.tuple [.whole, item]))
      fun fields => ∀ f ∈ fields, f.2.Sized :=
  (Enforces.pairOf (S := fun f => f.2.Sized) (enforces_of_lacks rfl) h (fun _ _ _ hvalue => hvalue)
    _ _).list fun _ _ hfields => hfields

theorem sized_flat {v : Value} (hlength : v.length? = none) (hchildren : v.children = []) :
    v.Sized := by
  refine sized_of_children (fun length h => ?_) (by simp [hchildren])
  cases hlength.symm.trans h

theorem sized_of_fields {v : Value} {fields : List (String × Value)}
    (hlength : v.length? = none) (hchildren : v.children = fields.map Prod.snd)
    (h : ∀ f ∈ fields, f.2.Sized) : v.Sized := by
  refine sized_of_children (fun length h => ?_) ?_
  · cases hlength.symm.trans h
  · rw [hchildren]
    exact List.forall_mem_map.mpr h

/-- A kind whose content is no sequence and holds no value. -/
theorem enforces_flat {α : Type} {item : Outline} {f : α → Value} (d : Decoder α)
    (hitem : item.lacks "Only" = true) (hlength : ∀ a, (f a).length? = none)
    (hchildren : ∀ a, (f a).children = []) :
    Content.Enforces demand Sized item (.single (Decoder.map f d)) :=
  .single ((enforces_of_lacks hitem).map fun a _ => sized_flat (hlength a) (hchildren a))

/-- **No value that is decoded has an overfull excerpt in it**, and all its
lengths are machine words. -/
theorem enforces : decoder.Enforces demand outline Sized := by
  refine enforces_fix fun inner hinner => enforces_beside ?_ rfl
  refine .cons ⟨rfl, ?bool⟩ (.cons ⟨rfl, ?char⟩ (.cons ⟨rfl, ?uint⟩ (.cons ⟨rfl, ?int⟩
    (.cons ⟨rfl, ?float⟩ (.cons ⟨rfl, ?pointer⟩ (.cons ⟨rfl, ?struct⟩ (.cons ⟨rfl, ?enum⟩
    (.cons ⟨rfl, ?string⟩ (.cons ⟨rfl, ?array⟩ (.cons ⟨rfl, ?unallocated⟩ .nil))))))))))
  case struct =>
    refine .record (.seq (.map (.required (enforces_of_lacks rfl) _) ?_)
      (.required (enforces_fields hinner) _))
    exact fun name _ fields hfields => sized_of_fields rfl rfl hfields
  case enum =>
    refine .record (.seq (.seq (.map (.required (enforces_of_lacks rfl) _) ?_)
      (.required (enforces_of_lacks rfl) _)) (.required (enforces_fields hinner) _))
    exact fun name _ variant _ fields hfields => sized_of_fields rfl rfl hfields
  case string =>
    refine .single ((Excerpt.enforces (P := fun _ => True) (enforces_of_lacks rfl)).map ?_)
    rintro units ⟨hlength, -⟩
    exact sized_of_children (by rintro _ ⟨⟩; exact hlength) (List.forall_mem_nil _)
  case array =>
    refine .single ((Excerpt.enforces hinner).map ?_)
    rintro items ⟨hlength, helements⟩
    refine sized_of_children (by rintro _ ⟨⟩; exact hlength) ?_
    rwa [children_array]
  case unallocated => exact .bare (sized_flat rfl rfl)
  all_goals exact enforces_flat _ (by decide) (fun _ => rfl) fun _ => rfl

end Value

end Marginalia
