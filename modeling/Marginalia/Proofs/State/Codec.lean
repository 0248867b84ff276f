import Marginalia.Proofs.State.Excerpt
import Marginalia.Proofs.State.Number
import Marginalia.Proofs.State.Value
import Marginalia.Proofs.Text.Utf8

/-!
# State — values are read back

What can be built in memory has excerpts that are proper, and counts and
offsets that fit a machine word (`Value.Built`). Every such value is read
back from its text as it was, unless the text nests deeper than a reader
goes; then it is refused (`Value.decode_encode`). Of the finite doubles in
it no more is taken than that each is read back from its own text.

A little less is enough for that: only the numbers that are written have
to fit (`Value.Sendable`), and the length of a sequence that lacks nothing
is not.
-/

namespace Marginalia

open Json Json.Decoder

variable {m n : Nat}

/-! ## Paths -/

/-- The numbers of a root fit a machine word. -/
def Root.Addressable : Root → Prop
  | .stack frame _ => frame < wordBound
  | .heap index => index < wordBound

/-- The numbers of a part fit a machine word. -/
def Part.Addressable : Part → Prop
  | .field n => n < wordBound
  | .index n => n < wordBound
  | .slice start stop => start < wordBound ∧ stop < wordBound

/-- The numbers of a path fit machine words. -/
structure Path.Addressable (p : Path) : Prop where
  root : p.root.Addressable
  parts : ∀ part ∈ p.parts, part.Addressable

theorem Root.reads {r : Root} (h : r.Addressable) : Reads (m + 2) decoder r.toJson r := by
  cases r with
  | stack frame name =>
    refine .beside rfl (reads_content ?_ ⟨by simp, by simp⟩)
    exact ((Fields.Reads.required rfl (reads_size h)).map _).seq
      (.required rfl (reads_string name))
  | heap index =>
    refine .beside rfl (reads_content ?_ ⟨by simp, by simp⟩)
    exact (Fields.Reads.required rfl (reads_size h)).map _

theorem Part.reads {part : Part} (h : part.Addressable) :
    Reads (m + 2) decoder part.toJson part := by
  cases part with
  | field n => exact .beside rfl ((reads_size h).map _)
  | index n => exact .beside rfl ((reads_size h).map _)
  | slice start stop =>
    exact .beside rfl (((reads_size h.1).pairOf (reads_size h.2) _ _).map _)

theorem Path.reads {p : Path} (h : p.Addressable) : Reads m decoder p.toJson p := by
  refine Reads.mono (reads_record ?_ ⟨by simp, by simp⟩) (Nat.le_add_right m 4)
  exact ((Fields.Reads.required rfl (Root.reads h.root)).map _).seq
    (.required rfl (reads_list fun part hpart => (Part.reads (h.parts part hpart))))

/-! ## Excerpts -/

namespace Excerpt

variable {α : Type} {d : Decoder α} {f : α → Json} {e : Excerpt α}

/-- The last element, where there is one. -/
theorem reads_last (hlast : ∀ a ∈ e.last, Reads m d (f a) a) (hf : ∀ a, f a ≠ .null) :
    Reads m (optional d) ((e.last.map f).getD .null) e.last := by
  cases h : e.last with
  | none => exact reads_optional_none d
  | some a => exact (hlast a h).optional_some (hf a)

/-- The excerpt is proper, and its length fits a machine word where it is
written. -/
structure Writable (e : Excerpt α) : Prop where
  proper : e.Proper
  length : e.isElided = true → e.length < wordBound

/-- **An excerpt is read back**, whatever it lacks. -/
theorem reads (h : e.Writable) (hfront : ∀ a ∈ e.front, Reads m d (f a) a)
    (hlast : ∀ a ∈ e.last, Reads m d (f a) a) (hf : ∀ a, f a ≠ .null) :
    Reads (m + 2) (decoder d) (e.toJson f) e := by
  have hproper := h.proper
  have hparts := hproper.ofParts?
  have hcount : (e.front.map f).length + (e.last.map f).toList.length = e.includedCount := by
    rw [includedCount, List.length_map]
    cases e.last <;> rfl
  rw [toJson, assemble, hcount]
  split
  · rename_i helided
    have hlength := h.length (decide_eq_true helided)
    refine Reads.check (a := (e.front, e.last, e.length))
      (.beside rfl (reads_content ?_ ⟨by simp, by simp⟩)) (by simp only [hparts]; rfl)
    exact ((Fields.Reads.map (.required rfl ((reads_list hfront).mono (Nat.le_succ m))) _).seq
      (.optional rfl (reads_last hlast hf))).seq (.required rfl (reads_size hlength))
  · have hall : e.includedCount = e.length := Nat.le_antisymm hproper.1 (by omega)
    have hnone := hproper.2 hall
    have hfull : e.front.length = e.length := by
      rw [← hall, includedCount, hnone]
      rfl
    rw [hnone, ← hfull] at hparts
    exact Reads.check (a := (e.front, none, e.front.length))
      (.beside rfl ((reads_list hfront).map _)) (by simp only [hparts]; rfl)

end Excerpt

/-! ## Values -/

namespace Value

/-- **What can be built**: every excerpt in it is proper, as all ways to
make one see to, and every count and offset fits a machine word. -/
inductive Built : Value → Prop
  | bool (b : Bool) : Built (.bool b)
  | char (c : Char) : Built (.char c)
  | uint (n : Nat) : Built (.uint n)
  | int (n : Int) : Built (.int n)
  | float (x : Binary64) : Built (.float x)
  | pointer {path : Path} : path.Addressable → Built (.pointer path)
  | struct (name : String) {fields : List (String × Value)} :
      (∀ f ∈ fields, Built f.2) → Built (.struct name fields)
  | enum (name variant : String) {fields : List (String × Value)} :
      (∀ f ∈ fields, Built f.2) → Built (.enum name variant fields)
  | string {units : Excerpt UInt32} :
      units.Proper → units.length < wordBound → Built (.string units)
  | array {items : Excerpt Value} :
      items.Proper → items.length < wordBound → (∀ a ∈ items.front, Built a) →
      (∀ a ∈ items.last, Built a) → Built (.array items)
  | unallocated : Built .unallocated

/-- A list of values is built from them. -/
theorem Built.list {items : List Value} (h : ∀ a ∈ items, a.Built)
    (hlength : items.length < wordBound) : (list items).Built :=
  .array (Excerpt.proper_complete items) hlength h (fun _ ha => nomatch ha)

/-- So is a list that is shortened. -/
theorem Built.shorten {items : List Value} (h : ∀ a ∈ items, a.Built)
    (hlength : items.length < wordBound) (limit : Nat) :
    (Value.array (.shorten items limit)).Built := by
  have hproper := Excerpt.proper_shorten items limit
  unfold Excerpt.shorten at hproper ⊢
  split
  · exact .list h hlength
  · rename_i hlong
    rw [if_neg hlong] at hproper
    exact .array hproper hlength (fun a ha => h a (List.mem_of_mem_take ha))
      (fun a ha => h a (List.mem_of_getLast? ha))

/-- What is written of the value itself can be read: an excerpt is
writable, and the numbers of a path fit machine words. -/
def Orderly : Value → Prop
  | .pointer path => path.Addressable
  | .string units => units.Writable
  | .array items => items.Writable
  | _ => True

/-- **What can be sent**: the value and all values inside are orderly. -/
def Sendable (v : Value) : Prop := ∀ w, v.Holds w → w.Orderly

theorem sendable_iff {v : Value} : v.Sendable ↔ v.Orderly ∧ ∀ c ∈ v.children, c.Sendable := by
  constructor
  · intro h
    exact ⟨h v (holds_iff.mpr (.inl rfl)),
      fun c hc w hw => h w (holds_iff.mpr (.inr ⟨c, hc, hw⟩))⟩
  · rintro ⟨hv, hinside⟩ w hw
    rcases holds_iff.mp hw with rfl | ⟨c, hc, hw⟩
    · exact hv
    · exact hinside c hc w hw

/-- What holds nothing can be sent if it is orderly. -/
theorem Orderly.sendable {v : Value} (h : v.Orderly) (hv : v.children = []) : v.Sendable :=
  sendable_iff.mpr ⟨h, by simp [hv]⟩

theorem sendable_struct {name : String} {fields : List (String × Value)} :
    (Value.struct name fields).Sendable ↔ ∀ f ∈ fields, f.2.Sendable := by
  rw [sendable_iff, children, List.forall_mem_map]
  exact and_iff_right trivial

theorem sendable_enum {name variant : String} {fields : List (String × Value)} :
    (Value.enum name variant fields).Sendable ↔ ∀ f ∈ fields, f.2.Sendable := by
  rw [sendable_iff, children, List.forall_mem_map]
  exact and_iff_right trivial

theorem sendable_array {items : Excerpt Value} :
    (Value.array items).Sendable ↔
      items.Writable ∧ (∀ a ∈ items.front, a.Sendable) ∧ ∀ a ∈ items.last, a.Sendable := by
  rw [sendable_iff, children_array, List.forall_mem_append]
  simp only [Option.mem_toList, Orderly, Option.mem_def]

/-- What is built can be sent. -/
theorem Built.sendable {v : Value} (h : v.Built) : v.Sendable := by
  induction h with
  | pointer hpath => exact Orderly.sendable hpath rfl
  | struct name _ ih => exact sendable_struct.mpr ih
  | enum name variant _ ih => exact sendable_enum.mpr ih
  | string hproper hlength => exact Orderly.sendable ⟨hproper, fun _ => hlength⟩ rfl
  | array hproper hlength _ _ ihfront ihlast =>
    exact sendable_array.mpr ⟨⟨hproper, fun _ => hlength⟩, ihfront, ihlast⟩
  | _ => exact Orderly.sendable trivial rfl

mutual

/-- Every double in the value. -/
def doubles : Value → List Binary64
  | .float x => [x]
  | .struct _ fields => doublesOfFields fields
  | .enum _ _ fields => doublesOfFields fields
  | .array ⟨front, last, _⟩ => doublesOfItems front ++ doublesOfLast last
  | _ => []

/-- The doubles in a list of fields. -/
def doublesOfFields : List (String × Value) → List Binary64
  | [] => []
  | (_, value) :: fields => value.doubles ++ doublesOfFields fields

/-- The doubles in a list of items. -/
def doublesOfItems : List Value → List Binary64
  | [] => []
  | value :: items => value.doubles ++ doublesOfItems items

/-- The doubles in the last element of an excerpt. -/
def doublesOfLast : Option Value → List Binary64
  | none => []
  | some value => value.doubles

end

variable {x : Binary64} {fields : List (String × Value)} {f : String × Value}
variable {items : List Value} {a : Value}

theorem mem_doublesOfFields (hf : f ∈ fields) (hx : x ∈ f.2.doubles) :
    x ∈ doublesOfFields fields := by
  induction hf with
  | head fields => exact List.mem_append_left _ hx
  | tail g _ ih => exact List.mem_append_right _ ih

theorem mem_doublesOfItems (ha : a ∈ items) (hx : x ∈ a.doubles) : x ∈ doublesOfItems items := by
  induction ha with
  | head items => exact List.mem_append_left _ hx
  | tail b _ ih => exact List.mem_append_right _ ih

theorem fieldsToJson_eq (fields : List (String × Value)) :
    fieldsToJson fields = fields.map fun f => .array [.string f.1, f.2.toJson] := by
  induction fields with
  | nil => rfl
  | cons f fields ih => rw [fieldsToJson, ih, List.map_cons]

theorem itemsToJson_eq (items : List Value) : itemsToJson items = items.map toJson := by
  induction items with
  | nil => rfl
  | cons a items ih => rw [itemsToJson, ih, List.map_cons]

theorem lastToJson_eq (last : Option Value) : lastToJson last = last.map toJson := by
  cases last <;> rfl

theorem toJson_ne_null (v : Value) : v.toJson ≠ .null := by
  cases v <;> simp [toJson, tagged, kindOnly]

/-- Fields are read back in their order, whatever their names. -/
theorem reads_fields {inner : Decoder Value}
    (h : ∀ f ∈ fields, Reads m inner f.2.toJson f.2) :
    Reads (m + 2) (.list (.pair .string inner)) (.array (fieldsToJson fields)) fields := by
  rw [fieldsToJson_eq]
  exact reads_list fun f hf => Reads.pairOf (reads_string f.1) (h f hf) _ _

/-- One step of the decoder of values. -/
abbrev step (inner : Decoder Value) : Decoder Value := .beside "Value" (kinds inner)

/-- **A value is read back** with as many brackets as there is room. -/
theorem Sendable.reads_unfold {v : Value} (hv : v.Sendable)
    (hx : ∀ x ∈ v.doubles, ∀ negative rank, x = .finite negative rank → x.ReadsBack) (n : Nat) :
    Reads n (unfoldTimes step n) v.toJson v := by
  induction v using Value.induction generalizing n with
  | bool b => exact reads_unfoldTimes (fun m => .beside rfl ((reads_bool b).map _)) n
  | char c => exact reads_unfoldTimes (fun m => .beside rfl ((reads_char c).map _)) n
  | uint k => exact reads_unfoldTimes (fun m => .beside rfl ((reads_wideNat k).map _)) n
  | int k => exact reads_unfoldTimes (fun m => .beside rfl ((reads_wide k).map _)) n
  | float x =>
    have hfloat := hx x (List.mem_singleton.mpr rfl)
    exact reads_unfoldTimes (fun m => .beside rfl ((reads_float hfloat).map _)) n
  | pointer path =>
    have hpath : path.Addressable := (sendable_iff.mp hv).1
    exact reads_unfoldTimes (fun m => .beside rfl ((Path.reads hpath).map _)) n
  | struct name fields ih =>
    rw [sendable_struct] at hv
    have hfields (m : Nat) := reads_fields fun f hf =>
      ih f hf (hv f hf) (fun x hx' => hx x (mem_doublesOfFields hf hx')) m
    -- the fields stand deeper inside than the decoder was unfolded for
    refine reads_unfoldTimes (fun m => ?_) n
    refine .beside rfl (Reads.mono (reads_content ?_ ⟨by simp, by simp⟩) (Nat.le_add_right m 3))
    exact ((Fields.Reads.required rfl (reads_string name)).map _).seq (.required rfl (hfields m))
  | enum name variant fields ih =>
    rw [sendable_enum] at hv
    have hfields (m : Nat) := reads_fields fun f hf =>
      ih f hf (hv f hf) (fun x hx' => hx x (mem_doublesOfFields hf hx')) m
    refine reads_unfoldTimes (fun m => ?_) n
    refine .beside rfl (Reads.mono (reads_content ?_ ⟨by simp, by simp⟩) (Nat.le_add_right m 3))
    exact (((Fields.Reads.required rfl (reads_string name)).map _).seq
      (.required rfl (reads_string variant))).seq (.required rfl (hfields m))
  | string units =>
    have hunits : units.Writable := (sendable_iff.mp hv).1
    refine reads_unfoldTimes (fun m => ?_) n
    refine .beside rfl (Reads.mono (Reads.map ?_ _) (Nat.le_add_right m 2))
    exact Excerpt.reads hunits (fun u _ => reads_word32 u) (fun u _ => reads_word32 u)
      (by simp [Json.ofNat])
  | array items ihfront ihlast =>
    obtain ⟨hitems, hsendfront, hsendlast⟩ := sendable_array.mp hv
    obtain ⟨front, last, length⟩ := items
    have hfront (m : Nat) : ∀ a ∈ front, Reads m (unfoldTimes step m) a.toJson a := fun a ha =>
      ihfront a ha (hsendfront a ha)
        (fun x hx' => hx x (List.mem_append_left _ (mem_doublesOfItems ha hx'))) m
    have hlast (m : Nat) : ∀ a ∈ last, Reads m (unfoldTimes step m) a.toJson a := by
      rintro a rfl
      exact ihlast a rfl (hsendlast a rfl) (fun x hx' => hx x (List.mem_append_right _ hx')) m
    refine reads_unfoldTimes (fun m => ?_) n
    rw [toJson, itemsToJson_eq, lastToJson_eq]
    refine .beside rfl (Reads.mono (Reads.map ?_ _) (Nat.le_add_right m 2))
    exact Excerpt.reads hitems (hfront m) (hlast m) toJson_ne_null
  | unallocated => exact reads_unfoldTimes (fun m => reads_kindOnly rfl) n

/-- So is what can be built. -/
theorem reads_unfold {v : Value} (hv : v.Built)
    (hx : ∀ x ∈ v.doubles, ∀ negative rank, x = .finite negative rank → x.ReadsBack) (n : Nat) :
    Reads n (unfoldTimes step n) v.toJson v :=
  hv.sendable.reads_unfold hx n

/-- Every finite double in the value is read back from its own text. -/
def DoublesReadBack (v : Value) : Prop :=
  ∀ negative rank, .finite negative rank ∈ v.doubles →
    (Binary64.finite negative rank).ReadsBack

/-- **What can be sent is read back.** -/
theorem Sendable.reads {v : Value} (hv : v.Sendable) (hx : v.DoublesReadBack) :
    Reads n decoder v.toJson v := by
  refine reads_fix (hv.reads_unfold ?_)
  rintro _ hmem negative rank rfl
  exact hx negative rank hmem

/-- **Every value is read back**, and refused only where it nests too
deep. -/
theorem decode_encode (v : Value) (hv : v.Built)
    (hx : ∀ negative rank, .finite negative rank ∈ v.doubles →
      (Binary64.finite negative rank).ReadsBack) :
    (v.toJson.nesting ≤ 127 → decode v.encode.toUTF8 = .ok v) ∧
      (127 < v.toJson.nesting → decode v.encode.toUTF8 = .error .tooDeep) := by
  have hdoubles : ∀ x ∈ v.doubles, ∀ negative rank, x = .finite negative rank → x.ReadsBack := by
    rintro _ hmem negative rank rfl
    exact hx negative rank hmem
  have hdecode : decode v.encode.toUTF8 = ifRoom depthLimit v.toJson.nesting v := by
    rw [decode, encode, Text.glyphs_toUTF8]
    exact (reads_fix (reads_unfold hv hdoubles)).decodeText
  rw [hdecode]
  exact ⟨fun h => if_pos h, fun h => if_neg (Nat.not_le.mpr h)⟩

/-- A struct with a field name given twice, a variant, wide numbers, a
double, and excerpts that lack elements; and a boolean in more lists than
a reader goes into. -/
theorem decode_encode_of_samples :
    let x : Binary64 := .finite false ⟨4609434218613702656, by decide⟩
    let v : Value := .struct "P"
      [("x", .float x), ("x", .float .nan),
        ("e", .enum "E" "V" [("0", .int (-170141183460469231731687303715884105728))]),
        ("s", .string (.shorten [34, 10, 128512, 98] 1)),
        ("a", .array (.shorten [.uint 340282366920938463463374607431768211455, .bool true,
          .char '"'] 1)),
        ("p", .pointer ((Path.stack 1 "a\nb").slice 2 5)), ("u", .unallocated)]
    let deep : Value := Nat.repeat (fun v => .list [v]) 43 (.bool true)
    (v.Built ∧ x.ReadsBack ∧ v.toJson.nesting ≤ 127 ∧ decode v.encode.toUTF8 = .ok v) ∧
      deep.Built ∧ 127 < deep.toJson.nesting ∧ decode deep.encode.toUTF8 = .error .tooDeep := by
  intro x v deep
  have hx : x.ReadsBack := by decide +kernel
  have hv : v.Built := by
    refine .struct _ ?_
    simp only [List.forall_mem_cons]
    refine ⟨.float _, .float _, .enum _ _ ?_, .string ?_ ?_, .shorten ?_ ?_ _,
      .pointer ⟨?_, ?_⟩, .unallocated, List.forall_mem_nil _⟩
    · exact List.forall_mem_singleton.mpr (.int _)
    · exact Excerpt.proper_shorten _ _
    · decide
    · simp only [List.forall_mem_cons]
      exact ⟨.uint _, .bool _, .char _, List.forall_mem_nil _⟩
    · decide
    · exact show 1 < wordBound by decide
    · exact List.forall_mem_singleton.mpr ⟨by decide, by decide⟩
  have hdeep (n : Nat) : (Nat.repeat (fun v : Value => .list [v]) n (.bool true)).Built := by
    induction n with
    | zero => exact .bool true
    | succ n ih => exact .list (List.forall_mem_singleton.mpr ih) (show 1 < wordBound by decide)
  refine ⟨⟨hv, hx, by decide +kernel, (decode_encode v hv ?_).1 (by decide +kernel)⟩, hdeep 43,
    by decide +kernel, (decode_encode deep (hdeep 43) ?_).2 (by decide +kernel)⟩
  · intro negative rank hmem
    rcases List.mem_cons.mp (show _ ∈ [x, .nan] from hmem) with heq | hmem
    · rw [heq]
      exact hx
    · cases List.mem_singleton.mp hmem
  · intro negative rank hmem
    exact nomatch (show _ ∈ [] from hmem)

end Value

end Marginalia
