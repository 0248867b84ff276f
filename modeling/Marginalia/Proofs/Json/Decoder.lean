import Marginalia.Json.Tagged
import Marginalia.Proofs.Json.Node

/-!
# Json — decoders that read what is written

A decoder reads a message if it takes it to its value wherever the message
has room for its brackets, and objects to the depth where it has not
(`Json.Decoder.Reads`). Each way to build a decoder has a lemma that says
which messages the result reads; the brackets that it opens itself are
counted there once (`Json.Decoder.Reads.of_enter`).

A text is then decoded exactly if it does not nest too deep
(`Json.Decoder.Reads.decodeText`).
-/

namespace Marginalia.Json

variable {α β : Type} {n m room depth depth' : Nat} {a : α} {b : β} {j k : Json}

/-! ## Room for brackets -/

/-- A result that is reached if there is room for so many brackets. -/
def ifRoom (room depth : Nat) (a : α) : Except Fault α :=
  if depth ≤ room then .ok a else .error .tooDeep

theorem ifRoom_zero (room : Nat) (a : α) : ifRoom room 0 a = .ok a := if_pos (Nat.zero_le _)

theorem ifRoom_map (f : α → β) : (ifRoom room depth a).map f = ifRoom room depth (f a) := by
  unfold ifRoom
  split <;> rfl

/-- One result after the other needs room for the deeper of the two. -/
theorem ifRoom_bind {f : α → Except Fault β} (h : f a = ifRoom room depth' b) :
    (ifRoom room depth a >>= f) = ifRoom room (max depth depth') b := by
  unfold ifRoom at *
  split
  · rename_i hroom
    have hmax : max depth depth' ≤ room ↔ depth' ≤ room := by omega
    simp only [hmax]
    exact h
  · rw [if_neg (by omega)]
    rfl

namespace Decoder

/-- **The decoder reads the message as the value**, wherever fewer than
`n` brackets may still open. -/
structure Reads (n : Nat) (d : Decoder α) (j : Json) (a : α) : Prop where
  legible : j.Legible
  eq : ∀ p : Place, p.room < n → d p j.node = ifRoom p.room j.nesting a

variable {d : Decoder α} {e : Decoder β}

theorem Reads.mono (h : Reads n d j a) (hm : m ≤ n) : Reads m d j a :=
  ⟨h.legible, fun p hp => h.eq p (Nat.lt_of_lt_of_le hp hm)⟩

/-- A message without brackets. -/
theorem Reads.of_flat (hlegible : j.Legible) (hj : j.nesting = 0)
    (h : ∀ p, d p j.node = .ok a) : Reads n d j a :=
  ⟨hlegible, fun p _ => by rw [h, hj, ifRoom_zero]⟩

/-- A message that opens a bracket and leaves what is inside to `body`. -/
theorem Reads.of_enter {body : Place → Except Fault α} (hlegible : j.Legible)
    (hj : j.nesting = depth + 1) (hd : ∀ p, d p j.node = enter p >>= body)
    (hbody : ∀ p : Place, p.room < n → body p = ifRoom p.room depth a) :
    Reads (n + 1) d j a := by
  refine ⟨hlegible, fun p hp => ?_⟩
  rw [hd, hj]
  obtain ⟨room, held⟩ := p
  cases room with
  | zero => rfl
  | succ room =>
    have hroom := hbody ⟨room, held⟩ (Nat.lt_of_succ_lt_succ hp)
    simp only [ifRoom, Nat.add_le_add_iff_right] at hroom ⊢
    exact hroom

/-! ## Plain values -/

theorem reads_bool (b : Bool) : Reads n bool (.bool b) b :=
  .of_flat trivial rfl fun _ => rfl

theorem reads_string (s : String) : Reads n string (.string s) s :=
  .of_flat trivial rfl fun _ => rfl

theorem reads_char (c : Char) : Reads n char (.string (String.singleton c)) c := by
  refine .of_flat trivial rfl fun p => ?_
  simp [node, char]

theorem whole?_wholeNumeral (h : n < wordBound) : (wholeNumeral n).whole? = some (n : Int) := by
  have hsign : ¬(n : Int) < 0 := by omega
  simp [wholeNumeral, Numeral.whole?, hsign, h]

theorem reads_natBelow {bound : Nat} (hn : n < bound) (hbound : bound ≤ wordBound)
    (wanted : String) : Reads m (natBelow bound wanted) (.ofNat n) n := by
  refine .of_flat trivial rfl fun p => ?_
  have hwhole := whole?_wholeNumeral (Nat.lt_of_lt_of_le hn hbound)
  have hrange : (0 : Int) ≤ n ∧ (n : Int) < bound := by omega
  simp [ofNat, node, natBelow, hwhole, hrange]

theorem reads_size (h : n < wordBound) : Reads m size (.ofNat n) n :=
  reads_natBelow h (Nat.le_refl _) _

theorem Reads.map (h : Reads n d j a) (f : α → β) : Reads n (map f d) j (f a) :=
  ⟨h.legible, fun p hp => by rw [Decoder.map, h.eq p hp, ifRoom_map]⟩

theorem Reads.check {f : α → Except String β} (h : Reads n d j a) (hf : f a = .ok b) :
    Reads n (check d f) j b := by
  refine ⟨h.legible, fun p hp => ?_⟩
  rw [Decoder.check, h.eq p hp, ifRoom, ifRoom]
  rcases Nat.lt_or_ge p.room j.nesting with hdeep | hroom
  · simp only [if_neg (Nat.not_le.mpr hdeep)]
  · simp only [if_pos hroom, hf]

theorem reads_word32 (u : UInt32) : Reads n word32 (.ofNat u.toNat) u := by
  have h := (reads_natBelow (m := n) u.toNat_lt (by decide) "u32").map UInt32.ofNat
  rwa [UInt32.ofNat_toNat] at h

theorem node_ne_null (h : j ≠ .null) : j.node ≠ .null := by
  cases j with
  | null => exact absurd rfl h
  | real negative rank =>
    rw [node]
    split <;> simp
  | _ => simp [node]

theorem reads_optional_none (d : Decoder α) : Reads n (optional d) .null none :=
  .of_flat trivial rfl fun _ => rfl

theorem Reads.optional_some (h : Reads n d j a) (hj : j ≠ .null) :
    Reads n (optional d) j (some a) := by
  refine ⟨h.legible, fun p hp => ?_⟩
  have hnode : optional d p j.node = (d p j.node).map some := by
    unfold optional
    split
    · rename_i hnull
      exact absurd hnull (node_ne_null hj)
    · rfl
  rw [hnode, h.eq p hp, ifRoom_map]

/-! ## Arrays -/

theorem legibleItems_map {f : α → Json} {items : List α} (h : ∀ a ∈ items, (f a).Legible) :
    LegibleItems (items.map f) := by
  induction items with
  | nil => trivial
  | cons a items ih =>
    rw [List.forall_mem_cons] at h
    exact ⟨h.1, ih h.2⟩

theorem each_eq {f : α → Json} {items : List α} {p : Place} (hp : p.room < n)
    (h : ∀ a ∈ items, Reads n d (f a) a) :
    each d p (nodeItems (items.map f)) = ifRoom p.room (nestingItems (items.map f)) items := by
  induction items with
  | nil => exact (ifRoom_zero _ _).symm
  | cons a items ih =>
    rw [List.forall_mem_cons] at h
    rw [List.map_cons, nodeItems, each, h.1.eq p hp, ih h.2, nestingItems]
    exact ifRoom_bind (ifRoom_map (a :: ·))

/-- **A list is read item by item.** -/
theorem reads_list {f : α → Json} {items : List α} (h : ∀ a ∈ items, Reads n d (f a) a) :
    Reads (n + 1) (list d) (.list f items) items := by
  refine .of_enter (legibleItems_map fun a ha => (h a ha).legible) rfl (fun _ => rfl) ?_
  intro p hp
  rw [each_eq hp h]
  exact ifRoom_map id

/-- **A pair is read item by item.** -/
theorem Reads.pairOf (hd : Reads n d j a) (he : Reads n e k b) (name lengthName : String) :
    Reads (n + 1) (pairOf name lengthName d e) (.array [j, k]) (a, b) := by
  refine .of_enter ⟨hd.legible, he.legible, trivial⟩ rfl (fun _ => rfl) fun p hp => ?_
  have hfirst : itemAt d p (nodeItems [j, k]) true 0 lengthName = ifRoom p.room j.nesting a :=
    hd.eq p hp
  have hsecond : itemAt e p (nodeItems [j, k]) true 1 lengthName = ifRoom p.room k.nesting b :=
    he.eq p hp
  rw [hfirst, hsecond, nestingItems, nestingItems, nestingItems, Nat.max_zero]
  exact ifRoom_bind (ifRoom_map (a, ·))

end Decoder

/-! ## Fields -/

/-- A result whose fault may stand anywhere among the members. -/
def IfRoom (room depth : Nat) (a : α) (r : Placed α) : Prop :=
  ∃ i, r = if depth ≤ room then .ok a else .error (i, .tooDeep)

theorem IfRoom.both {f : α → β} {rf : Placed (α → β)} {ra : Placed α}
    (hf : IfRoom room depth f rf) (ha : IfRoom room depth' a ra) :
    IfRoom room (max depth depth') (f a) (Placed.both rf ra) := by
  obtain ⟨i, rfl⟩ := hf
  obtain ⟨i', rfl⟩ := ha
  rcases Nat.lt_or_ge room depth with hdeep | hroom <;>
    rcases Nat.lt_or_ge room depth' with hdeep' | hroom'
  · refine ⟨if i' < i then i' else i, ?_⟩
    simp only [if_neg (Nat.not_le.mpr hdeep), if_neg (Nat.not_le.mpr hdeep'), Placed.both,
      if_neg (show ¬max depth depth' ≤ room by omega)]
    split <;> rfl
  · refine ⟨i, ?_⟩
    simp only [if_neg (Nat.not_le.mpr hdeep), if_pos hroom', Placed.both,
      if_neg (show ¬max depth depth' ≤ room by omega)]
  · refine ⟨i', ?_⟩
    simp only [if_pos hroom, if_neg (Nat.not_le.mpr hdeep'), Placed.both,
      if_neg (show ¬max depth depth' ≤ room by omega)]
  · refine ⟨i, ?_⟩
    simp only [if_pos hroom, if_pos hroom', Placed.both,
      if_pos (show max depth depth' ≤ room by omega)]

theorem IfRoom.ofResult (room depth : Nat) (a : α) (i : Nat) :
    IfRoom room depth a (Placed.ofResult i (ifRoom room depth a)) := by
  refine ⟨i, ?_⟩
  unfold ifRoom
  split <;> rfl

theorem IfRoom.result {r : Placed α} (h : IfRoom room depth a r) :
    r.result = ifRoom room depth a := by
  obtain ⟨i, rfl⟩ := h
  unfold ifRoom
  split <;> rfl

theorem nestingMembers_append (xs ys : List (String × Json)) :
    nestingMembers (xs ++ ys) = max (nestingMembers xs) (nestingMembers ys) := by
  induction xs with
  | nil => exact (Nat.zero_max _).symm
  | cons x xs ih =>
    rw [List.cons_append, nestingMembers, nestingMembers, ih, Nat.max_assoc]

theorem legibleMembers_append {xs ys : List (String × Json)} (hxs : LegibleMembers xs)
    (hys : LegibleMembers ys) : LegibleMembers (xs ++ ys) := by
  induction xs with
  | nil => exact hys
  | cons x xs ih => exact ⟨hxs.1, ih hxs.2⟩

namespace Fields

@[simp] theorem names_required (name : String) (d : Decoder α) : (required name d).names = [name] :=
  rfl

@[simp] theorem names_optional (name : String) (d : Decoder α) : (optional name d).names = [name] :=
  rfl

@[simp] theorem names_map (f : α → β) (fields : Fields α) : (f <$> fields).names = fields.names :=
  rfl

@[simp] theorem names_seq (ff : Fields (α → β)) (fa : Fields α) :
    (ff <*> fa).names = ff.names ++ fa.names :=
  rfl

/-- **The fields are read off the members as the value.** Of all the
members, `own` are those that belong to these fields. -/
structure Reads (n : Nat) (fields : Fields α) (members own : List (String × Json)) (a : α) :
    Prop where
  legible : LegibleMembers own
  eq : ∀ p : Place, p.room < n →
    IfRoom p.room (nestingMembers own) a (fields.ofMembers p (nodeMembers members))

variable {members own own' : List (String × Json)} {name : String} {d : Decoder α}

/-- A field that is there. -/
theorem Reads.required {i : Nat} (hmember : findMember name (nodeMembers members) = some (i, j.node))
    (h : d.Reads n j a) : Reads n (required name d) members [(name, j)] a := by
  refine ⟨⟨h.legible, trivial⟩, fun p hp => ?_⟩
  rw [nestingMembers, nestingMembers, Nat.max_zero]
  simp only [Fields.required, hmember, h.eq p hp]
  exact .ofResult _ _ _ _

/-- A field that is there, though it need not be. -/
theorem Reads.optional {i : Nat} {o : Option α}
    (hmember : findMember name (nodeMembers members) = some (i, j.node))
    (h : (Decoder.optional d).Reads n j o) : Reads n (optional name d) members [(name, j)] o := by
  refine ⟨⟨h.legible, trivial⟩, fun p hp => ?_⟩
  rw [nestingMembers, nestingMembers, Nat.max_zero]
  simp only [Fields.optional, defaulted, hmember, h.eq p hp]
  exact .ofResult _ _ _ _

theorem Reads.map {fields : Fields α} (h : Reads n fields members own a) (f : α → β) :
    Reads n (f <$> fields) members own (f a) := by
  refine ⟨h.legible, fun p hp => ?_⟩
  have hboth := IfRoom.both (f := f) ⟨0, (if_pos (Nat.zero_le p.room)).symm⟩ (h.eq p hp)
  rwa [Nat.zero_max] at hboth

theorem Reads.seq {ff : Fields (α → β)} {fa : Fields α} {f : α → β}
    (hf : Reads n ff members own f) (ha : Reads n fa members own' a) :
    Reads n (ff <*> fa) members (own ++ own') (f a) := by
  refine ⟨legibleMembers_append hf.legible ha.legible, fun p hp => ?_⟩
  rw [nestingMembers_append]
  exact (hf.eq p hp).both (ha.eq p hp)

/-- Members that are fields, each of them once, leave nothing to object
to. -/
theorem stray_nodeMembers {names seen : List String} (position : Nat)
    (hnodup : (members.map Prod.fst).Nodup)
    (hnames : ∀ key ∈ members.map Prod.fst, key ∈ names ∧ key ∉ seen) :
    stray names seen position (nodeMembers members) = none := by
  induction members generalizing seen position with
  | nil => rfl
  | cons member members ih =>
    obtain ⟨key, value⟩ := member
    rw [List.map_cons, List.nodup_cons] at hnodup
    rw [List.map_cons, List.forall_mem_cons] at hnames
    obtain ⟨hkey, hrest⟩ := hnames
    have hseen : ∀ key' ∈ members.map Prod.fst, key' ∈ names ∧ key' ∉ key :: seen := by
      intro key' hmem
      refine ⟨(hrest key' hmem).1, ?_⟩
      rw [List.mem_cons, not_or]
      exact ⟨fun heq => hnodup.1 (heq ▸ hmem), (hrest key' hmem).2⟩
    simp [nodeMembers, stray, hkey.1, hkey.2, ih (position + 1) hnodup.2 hseen]

/-- The keys of a record are its fields, each of them once. -/
structure Cover (names : List String) (members : List (String × Json)) : Prop where
  nodup : (members.map Prod.fst).Nodup
  names : ∀ key ∈ members.map Prod.fst, key ∈ names

theorem Cover.around {names : List String} (h : Cover names members) :
    Fields.around names (nodeMembers members) true = .ok () := by
  have hstray : stray names [] 0 (nodeMembers members) = none :=
    stray_nodeMembers 0 h.nodup fun key hkey => ⟨h.names key hkey, List.not_mem_nil⟩
  rw [Fields.around, hstray]
  rfl

/-- Nothing but the fields themselves can be objected to. -/
theorem Cover.result {names : List String} (h : Cover names members) {r : Placed α}
    (hr : IfRoom room depth a r) :
    (Placed.both ((Fields.around names (nodeMembers members) true).map fun _ a => a) r).result =
      ifRoom room depth a := by
  rw [h.around, ← hr.result]
  cases r <;> rfl

theorem Reads.ofObject {fields : Fields α} (h : Reads n fields members members a)
    (hcover : Cover fields.names members) {p : Place} (hp : p.room < n) :
    fields.ofObject p (nodeMembers members) true = ifRoom p.room (nestingMembers members) a :=
  hcover.result (h.eq p hp)

end Fields

namespace Decoder

variable {members : List (String × Json)} {fields : Fields α} {type name : String}
variable {kinds : Kinds α} {content : Content α} {step : Decoder α → Decoder α} {d : Decoder α}

/-- **A record is read field by field.** -/
theorem reads_record (h : fields.Reads n members members a)
    (hcover : Fields.Cover fields.names members) :
    Reads (n + 1) (record name fields) (.object members) a :=
  .of_enter h.legible rfl (fun _ => rfl) fun _ hp => h.ofObject hcover hp

/-! ## Kinds -/

/-- A record as the content of a kind. -/
theorem reads_content {title : Option String} (h : fields.Reads n members members a)
    (hcover : Fields.Cover fields.names members) :
    Reads (n + 1) (besideContent type name (.record title fields)) (.object members) a :=
  .of_enter h.legible rfl (fun _ => rfl) fun _ hp => h.ofObject hcover hp

/-- **A value is read by its kind.** -/
theorem Reads.beside (hkind : kindOf kinds name = .ok (name, content))
    (h : Reads n (besideContent type name content) j a) :
    Reads (n + 1) (beside type kinds) (.tagged name j) a := by
  have hcover : Fields.Cover ["type", "value"] [("type", .string name), ("value", j)] :=
    ⟨by simp, by simp⟩
  refine .of_enter ⟨trivial, h.legible, trivial⟩ rfl (fun _ => rfl) fun p hp => hcover.result ?_
  have hcontent : besideMembers type kinds p
      (nodeMembers [("type", .string name), ("value", j)]) =
        Placed.ofResult 1 (ifRoom p.room j.nesting a) := by
    rw [← h.eq p hp]
    simp [besideMembers, nodeMembers, findMember, node, kindName, hkind]
  have hdepth : nestingMembers [("type", .string name), ("value", j)] = j.nesting := by
    simp [nestingMembers, nesting]
  rw [hcontent, hdepth]
  exact .ofResult _ _ _ _

theorem reads_kindOnly (hkind : kindOf kinds name = .ok (name, .bare a)) :
    Reads (n + 1) (beside type kinds) (.kindOnly name) a := by
  have hcover : Fields.Cover ["type", "value"] [("type", .string name)] := ⟨by simp, by simp⟩
  refine .of_enter ⟨trivial, trivial⟩ rfl (fun _ => rfl) fun p hp => hcover.result ⟨0, ?_⟩
  simp [besideMembers, nodeMembers, findMember, node, kindName, hkind, besideNothing,
    Placed.ofResult, nestingMembers, nesting]

/-! ## Decoders that refer to themselves -/

/-- A decoder that refers to itself reads a message if one step does, with
a bracket more than the step has inside. -/
theorem reads_unfoldTimes (h : ∀ m, Reads (m + 1) (step (unfoldTimes step m)) j a) :
    ∀ n, Reads n (unfoldTimes step n) j a
  | 0 => ⟨(h 0).legible, fun _ hp => absurd hp (Nat.not_lt_zero _)⟩
  | n + 1 => h n

theorem reads_fix (h : ∀ n, Reads n (unfoldTimes step n) j a) : Reads n (fix step) j a :=
  ⟨(h 0).legible, fun p _ => (h (p.room + 1)).eq p (Nat.lt_succ_self _)⟩

/-! ## Whole texts -/

/-- What is decoded is the whole text. -/
theorem decode_eq_ok {text : List Text.Glyph} (h : decode d text = .ok a) :
    d .top (Node.ofText text).1 = .ok a ∧ (Node.ofText text).2 = true := by
  unfold decode at h
  dsimp only at h
  split at h
  · rename_i a' hroot
    split at h
    · rename_i hended
      cases h
      exact ⟨hroot, hended⟩
    · cases h
  · split at h <;> cases h

/-- **A text is decoded exactly if it does not nest too deep.** -/
theorem Reads.decodeText (h : Reads (depthLimit + 1) d j a) :
    Json.decodeText d j.text = ifRoom depthLimit j.nesting a := by
  have hroot : d .top j.node = ifRoom depthLimit j.nesting a := h.eq .top (Nat.lt_succ_self _)
  rw [Json.decodeText, Json.decode, ofText_text h.legible]
  unfold ifRoom at hroot ⊢
  rcases Nat.lt_or_ge depthLimit j.nesting with hdeep | hroom
  · rw [if_neg (Nat.not_le.mpr hdeep)] at hroot ⊢
    simp only [hroot]
  · rw [if_pos (show j.nesting ≤ depthLimit from hroom)] at hroot ⊢
    simp only [hroot, if_true]

end Decoder

end Marginalia.Json
