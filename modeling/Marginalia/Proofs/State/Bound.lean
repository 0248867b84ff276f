import Marginalia.Proofs.State.Codec
import Marginalia.Proofs.State.Included
import Marginalia.Proofs.Json.BoundKinds

/-!
# State — what is read can be sent

However a value was spelled, what it is read as can be sent, and its
message nests no deeper than what is known of the one that was read
(`Value.gives`). An excerpt that turns out to lack nothing keeps its last
element in front, where it stands no deeper than before.
-/

namespace Marginalia

open Json Json.Decoder

variable {root : Outline}

/-! ## Paths -/

def Root.outline : Outline :=
  .beside [("Stack", .record [("frame", .whole), ("local", .whole)]),
    ("Heap", .record [("index", .whole)])]

def Part.outline : Outline :=
  .beside [("Field", .whole), ("Index", .whole), ("Subslice", .tuple [.whole, .whole])]

/-- What is known of a path. -/
def Path.outline : Outline :=
  .record [("segment", Root.outline), ("parts", .list Part.outline)]

theorem Root.gives : decoder.Gives root outline (Within Addressable toJson) := by
  refine gives_beside (.cons ⟨rfl, ?stack⟩ (.cons ⟨rfl, ?heap⟩ .nil))
  case stack =>
    refine .record (by decide) (.seq (.map (.required gives_size _) ?_)
      (.required gives_trivial _))
    intro b frame hframe name _
    exact ⟨hframe, by simp [toJson, nesting, nestingMembers, ofNat]⟩
  case heap =>
    refine .record (by decide) (.map (.required gives_size _) ?_)
    intro b index hindex
    exact ⟨hindex, by simp [toJson, nesting, nestingMembers, ofNat]⟩

theorem Part.gives : decoder.Gives root outline (Within Addressable toJson) := by
  refine gives_beside (.cons ⟨rfl, ?field⟩ (.cons ⟨rfl, ?index⟩ (.cons ⟨rfl, ?slice⟩ .nil)))
  case field => exact .single (gives_size.map fun b n hn => ⟨hn, by simp [toJson, ofNat, nesting]⟩)
  case index => exact .single (gives_size.map fun b n hn => ⟨hn, by simp [toJson, ofNat, nesting]⟩)
  case slice =>
    have hpair (b start stop : Nat) (hstart : start < wordBound) (hstop : stop < wordBound) :
        Within Addressable toJson (b + 1 + 1) (slice start stop) :=
      ⟨⟨hstart, hstop⟩, by simp [toJson, ofNat, nesting, nestingItems]⟩
    refine .single (.map (gives_size.pairOf gives_size
      (S := fun b ends => Within Addressable toJson (b + 1) (slice ends.1 ends.2)) hpair _ _) ?_)
    exact fun _ _ h => h

theorem Path.gives : decoder.Gives root outline (Within Addressable toJson) := by
  refine gives_record (by decide) (.seq (.map (.required Root.gives _) ?_)
    (.required Part.gives.listWithin _))
  intro b start hstart parts hparts
  exact ⟨⟨hstart.1, hparts.1⟩, by
    simpa [toJson, nesting, nestingMembers, Nat.max_le] using ⟨hstart.2, hparts.2⟩⟩

/-! ## Excerpts -/

namespace Excerpt

variable {α : Type} {d : Decoder α} {item : Outline} {S : α → Prop} {f : α → Json} {b : Nat}
variable {front items : List α} {last : Option α} {length : Nat} {e : Excerpt α}

/-- What is known of an excerpt. -/
def outline (item : Outline) : Outline :=
  .beside [("All", .list item),
    ("Only", .record [("prefix", .list item), ("last", item), ("len", .whole)])]

/-- What is read of an excerpt: its items can be sent, and its length too
if it stands there. -/
inductive PartsWithin (S : α → Prop) (f : α → Json) : Nat → List α × Option α × Nat → Prop
  | all {b : Nat} {items : List α} : (∀ a ∈ items, Within S f b a) →
      PartsWithin S f (b + 2) (items, none, items.length)
  | only {b : Nat} {front : List α} {last : Option α} {length : Nat} :
      Within (∀ a ∈ ·, S a) (Json.list f) b front → (∀ a ∈ last, Within S f b a) →
      length < wordBound → PartsWithin S f (b + 2) (front, last, length)

/-- What is read of an excerpt makes one that can be sent, and that takes
no more brackets. -/
def EachWithin (S : α → Prop) (f : α → Json) (b : Nat) (e : Excerpt α) : Prop :=
  Within Writable (toJson f) b e ∧ (∀ a ∈ e.front, S a) ∧ ∀ a ∈ e.last, S a

theorem toJson_complete (items : List α) :
    (complete items).toJson f = .tagged "All" (.list f items) := by
  simp [complete, toJson, assemble, Json.list]

theorem eachWithin_complete (h : ∀ a ∈ items, Within S f b a) :
    EachWithin S f (b + 2) (complete items) := by
  refine ⟨⟨⟨proper_complete items, ?_⟩, ?_⟩, fun a ha => (h a ha).1, nofun⟩
  · intro helided
    simp [isElided, includedCount, complete] at helided
  · rw [toJson_complete, nesting_tagged, Nat.add_le_add_iff_right, nesting_list_le]
    exact fun a ha => (h a ha).2

theorem toJson_elided (h : e.isElided = true) :
    e.toJson f = .tagged "Only" (.object [("prefix", .list f e.front),
      ("last", (e.last.map f).getD .null), ("len", .ofNat e.length)]) := by
  have hcount : (e.front.map f).length + (e.last.map f).toList.length < e.length := by
    cases hlast : e.last <;> simpa [isElided, includedCount, hlast] using h
  rw [toJson, assemble, if_pos hcount]
  rfl

theorem eachWithin_elided (he : e.Proper) (helided : e.isElided = true)
    (hlength : e.length < wordBound) (hfront : Within (∀ a ∈ ·, S a) (Json.list f) b e.front)
    (hlast : ∀ a ∈ e.last, Within S f b a) : EachWithin S f (b + 2) e := by
  refine ⟨⟨⟨he, fun _ => hlength⟩, ?_⟩, hfront.1, fun a ha => (hlast a ha).1⟩
  have hlist := hfront.2
  have hend : ((e.last.map f).getD .null).nesting ≤ b := by
    cases hl : e.last with
    | none => exact Nat.zero_le _
    | some a => exact (hlast a hl).2
  rw [toJson_elided helided, nesting_tagged]
  simp only [nesting, nestingMembers, ofNat]
  omega

/-- One that turns out to lack nothing has its last element in front. -/
theorem eachWithin_of_parts {t : List α × Option α × Nat} (h : PartsWithin S f b t)
    (he : ofParts? t.1 t.2.1 t.2.2 = .ok e) : EachWithin S f b e := by
  have hproper := proper_ofParts? he
  cases h with
  | @all b items hitems =>
    have hcomplete : ofParts? items none items.length = .ok (complete items) :=
      (proper_complete items).ofParts?
    cases hcomplete.symm.trans he
    exact eachWithin_complete hitems
  | @only b front last length hfront hlast hlength =>
    simp only [ofParts?] at he
    split at he
    · cases he
    · split at he
      · cases he
        obtain ⟨c, rfl⟩ : ∃ c, b = c + 1 := by
          have hopen : 1 ≤ b := Nat.le_trans (Nat.le_add_left 1 _) hfront.2
          exact ⟨b - 1, by omega⟩
        refine (eachWithin_complete (b := c + 1) fun a ha => ?_)
        rcases List.mem_append.mp ha with ha | ha
        · exact ⟨hfront.1 a ha, Nat.le_succ_of_le (nesting_list_le.mp hfront.2 a ha)⟩
        · exact hlast a (Option.mem_toList.mp ha)
      · cases he
        refine eachWithin_elided hproper (decide_eq_true ?_) hlength hfront hlast
        simp only [includedCount]
        omega

/-- **What an excerpt is read as can be sent**, if its elements can. -/
theorem gives (h : d.Gives root item (Within S f)) :
    (decoder d).Gives root (outline item) (EachWithin S f) := by
  have hparts : (Decoder.beside "Wire" (parts d)).Gives root (outline item)
      (PartsWithin S f) := by
    refine gives_beside (.cons ⟨rfl, ?all⟩ (.cons ⟨rfl, ?only⟩ .nil))
    case all =>
      have hlist : (Decoder.list d).Gives root (.list item)
          fun b items => PartsWithin S f (b + 1) (items, none, items.length) :=
        h.list fun _ _ hitems => .all hitems
      exact .single (hlist.map fun _ _ h => h)
    case only =>
      refine .record (by simp) (.seq (.seq (.map (.required h.listWithin _) ?_) (.optional h _))
        (.required gives_size _))
      intro b front hfront last hlast length hlength
      exact .only hfront hlast hlength
  intro p node e b hd hb
  obtain ⟨t, ht, he⟩ := decoder_eq_ok hd
  exact eachWithin_of_parts (hparts ht hb) he

end Excerpt

/-! ## Values -/

namespace Value

/-- What is known of a list of fields. -/
def fieldsOutline : Outline := .list (.tuple [.whole, .again])

/-- What is known of a value. -/
def outline : Outline :=
  .beside [("Bool", .whole), ("Char", .whole), ("Uint", .whole), ("Int", .whole),
    ("Float", .whole), ("Pointer", Path.outline),
    ("Struct", .record [("name", .whole), ("fields", fieldsOutline)]),
    ("Enum", .record [("name", .whole), ("variant", .whole), ("fields", fieldsOutline)]),
    ("String", Excerpt.outline .whole), ("Array", Excerpt.outline .again),
    ("Unallocated", .whole)]

/-- The message of a field. -/
def fieldToJson (f : String × Value) : Json := .array [.string f.1, f.2.toJson]

theorem array_fieldsToJson (fields : List (String × Value)) :
    Json.array (fieldsToJson fields) = Json.list fieldToJson fields := by
  rw [fieldsToJson_eq]
  rfl

theorem gives_fields {inner : Decoder Value} {item : Outline}
    (h : inner.Gives root item (Within Sendable toJson)) :
    (Decoder.list (.pair .string inner)).Gives root (.list (.tuple [.whole, item]))
      (Within (∀ f ∈ ·, f.2.Sendable) (Json.list fieldToJson)) := by
  refine .listWithin (S := fun f => f.2.Sendable) (Decoder.Gives.pairOf gives_trivial h ?_ _ _)
  intro b name value _ hvalue
  exact ⟨hvalue.1, by simpa [fieldToJson, nesting, nestingItems] using hvalue.2⟩

/-- A kind whose content holds no value and takes no bracket. -/
theorem gives_flat {α : Type} {item : Outline} {f : α → Value} {kind : String} {g : α → Json}
    (d : Decoder α) (hf : ∀ a, (f a).Orderly) (hchildren : ∀ a, (f a).children = [])
    (hj : ∀ a, (f a).toJson = .tagged kind (g a)) (hg : ∀ a, (g a).nesting = 0) :
    Content.Gives root 0 (fun b => Within Sendable toJson (b + 1)) item
      (.single (Decoder.map f d)) := by
  refine .single (gives_trivial.map fun b a _ => ⟨(hf a).sendable (hchildren a), ?_⟩)
  rw [hj, nesting_tagged, hg]
  omega

theorem nesting_float (x : Binary64) : x.toJson.nesting = 0 := by
  cases x with
  | infinite negative => cases negative <;> rfl
  | _ => rfl

/-- **What a value is read as can be sent.** -/
theorem gives : decoder.Gives outline outline (Within Sendable toJson) := by
  refine gives_fix fun inner hinner => gives_beside ?_
  refine .cons ⟨rfl, ?bool⟩ (.cons ⟨rfl, ?char⟩ (.cons ⟨rfl, ?uint⟩ (.cons ⟨rfl, ?int⟩
    (.cons ⟨rfl, ?float⟩ (.cons ⟨rfl, ?pointer⟩ (.cons ⟨rfl, ?struct⟩ (.cons ⟨rfl, ?enum⟩
    (.cons ⟨rfl, ?string⟩ (.cons ⟨rfl, ?array⟩ (.cons ⟨rfl, ?unallocated⟩ .nil))))))))))
  case bool => exact gives_flat _ (fun _ => trivial) (fun _ => rfl) (fun _ => rfl) fun _ => rfl
  case char => exact gives_flat _ (fun _ => trivial) (fun _ => rfl) (fun _ => rfl) fun _ => rfl
  case uint => exact gives_flat _ (fun _ => trivial) (fun _ => rfl) (fun _ => rfl) fun _ => rfl
  case int => exact gives_flat _ (fun _ => trivial) (fun _ => rfl) (fun _ => rfl) fun _ => rfl
  case float => exact gives_flat _ (fun _ => trivial) (fun _ => rfl) (fun _ => rfl) nesting_float
  case pointer =>
    refine .single (Path.gives.map fun b path hpath => ⟨Orderly.sendable hpath.1 rfl, ?_⟩)
    rw [toJson, nesting_tagged]
    exact Nat.succ_le_succ hpath.2
  case struct =>
    refine .record (by decide) (.seq (.map (.required gives_trivial _) ?_)
      (.required (gives_fields hinner) _))
    intro b name _ fields hfields
    refine ⟨sendable_struct.mpr hfields.1, ?_⟩
    rw [toJson, array_fieldsToJson, nesting_tagged]
    simpa [nesting, nestingMembers] using hfields.2
  case enum =>
    refine .record (by decide) (.seq (.seq (.map (.required gives_trivial _) ?_)
      (.required gives_trivial _)) (.required (gives_fields hinner) _))
    intro b name _ variant _ fields hfields
    refine ⟨sendable_enum.mpr hfields.1, ?_⟩
    rw [toJson, array_fieldsToJson, nesting_tagged]
    simpa [nesting, nestingMembers] using hfields.2
  case string =>
    refine .single ((Excerpt.gives (S := fun _ => True) (f := fun u => .ofNat u.toNat)
      (gives_trivial.mono fun b u _ => ⟨trivial, Nat.zero_le b⟩)).map ?_)
    intro b units hunits
    refine ⟨Orderly.sendable hunits.1.1 rfl, ?_⟩
    rw [toJson, nesting_tagged]
    exact Nat.succ_le_succ hunits.1.2
  case array =>
    refine .single ((Excerpt.gives hinner).map ?_)
    rintro b items ⟨⟨hwritable, hb⟩, hfront, hlast⟩
    refine ⟨sendable_array.mpr ⟨hwritable, hfront, hlast⟩, ?_⟩
    rw [toJson, itemsToJson_eq, lastToJson_eq, nesting_tagged]
    exact Nat.succ_le_succ hb
  case unallocated =>
    exact .bare fun b _ => ⟨Orderly.sendable trivial rfl, Nat.le_add_left 1 b⟩

/-- What a text is read as can be sent back, within the brackets of what is
known of the text. -/
theorem within_of_decode {bytes : ByteArray} {v : Value} (h : decode bytes = .ok v) :
    Within Sendable toJson
      (min depthLimit (outline.depth outline (Node.ofText (Text.glyphs bytes)).1)) v :=
  gives (decode_eq_ok h).1 (Nat.le_refl _)

end Value

end Marginalia
