import Marginalia.Proofs.Analysis.Codec
import Marginalia.Proofs.Json.BoundKinds

/-!
# Analysis — what is read of a body can be sent

Whatever an analysis was spelled as, what it is read as can be sent, and
its message nests no deeper than what is known of the one that was read
(`BodyFacts.gives`, `BodyUses.gives`). What stands for a field that is not
given takes one bracket, and there is always a required field that takes
as many.
-/

namespace Marginalia

open Json Json.Decoder

variable {root : Outline}

/-! ## Spans -/

/-- What is known of a span. -/
def Span.outline : Outline := .record [("char_start", .whole), ("char_end", .whole)]

theorem Span.gives : decoder.Gives root outline (Within Sendable toJson) := by
  refine gives_record (by decide) (.seq (.map (.required gives_size _) ?_)
    (.required gives_size _))
  intro b start hstart stop hstop
  exact ⟨⟨hstart, hstop⟩, by simp [toJson, nesting, nestingMembers, ofNat]⟩

/-- A span takes a bracket. -/
theorem Span.one_le_nesting (s : Span) : 1 ≤ s.toJson.nesting := Nat.le_add_left 1 _

/-! ## Permissions -/

def Permissions.outline : Outline :=
  .record [("read", .whole), ("write", .whole), ("drop", .whole)]

theorem Permissions.gives : decoder.Gives root outline (Within (fun _ => True) toJson) := by
  refine gives_record (by decide) (.seq (.seq (.map (.required gives_trivial _) ?_)
    (.required gives_trivial _)) (.required gives_trivial _))
  intro b read _ write _ drop _
  exact ⟨trivial, by simp [toJson, nesting, nestingMembers]⟩

/-! ## Uses -/

def Refiner.outline : Outline := .beside [("Loan", Span.outline), ("Move", Span.outline)]

theorem Refiner.gives : decoder.Gives root outline (Within Sendable toJson) := by
  refine gives_beside (.cons ⟨rfl, .single (Span.gives.map fun b s hs => ?_)⟩
    (.cons ⟨rfl, .single (Span.gives.map fun b s hs => ?_)⟩ .nil))
  all_goals exact ⟨hs.1, by simpa [toJson] using hs.2⟩

/-- The known fields of a refinement. -/
def Refinement.fields : List (String × Outline) :=
  [("refiner_point", Refiner.outline), ("refined_ranges", .list Span.outline),
    ("start", .whole), ("end", .whole)]

theorem Refinement.gives : decoder.Gives root (.record fields) (Within Sendable toJson) := by
  refine gives_record (by decide) (.seq (.seq (.seq (.map (.required Refiner.gives _) ?_)
    (.required Span.gives.listWithin _)) (.required gives_size _))
    (.required gives_size _))
  intro b refiner hrefiner refined hrefined start hstart stop hstop
  refine ⟨⟨hrefiner.1, hrefined.1, hstart, hstop⟩, ?_⟩
  simpa [toJson, members, nesting, nestingMembers, ofNat, Nat.max_le] using
    ⟨hrefiner.2, hrefined.2⟩

def Cause.outline : Outline :=
  .inside [("InsufficientType", []), ("Refined", Refinement.fields)]

theorem Cause.gives : decoder.Gives root outline (Within Sendable toJson) := by
  refine gives_inside (.cons ⟨rfl, .bare fun b hb => ⟨trivial, hb⟩⟩
    (.cons ⟨rfl, .single (Refinement.gives.map fun b r hr => ⟨hr.1, ?_⟩)⟩ .nil))
  rw [toJson, nesting_inside]
  exact hr.2

def Explanations.outline : Outline :=
  .record [("read", Cause.outline), ("write", Cause.outline), ("drop", Cause.outline)]

theorem Explanations.gives : decoder.Gives root outline (Within Sendable toJson) := by
  refine gives_record (by decide) (.seq (.seq (.map (.optional Cause.gives _) ?_)
    (.optional Cause.gives _)) (.optional Cause.gives _))
  intro b read hread write hwrite drop hdrop
  refine ⟨⟨fun c hc => (hread c hc).1, fun c hc => (hwrite c hc).1, fun c hc => (hdrop c hc).1⟩, ?_⟩
  rw [toJson, nesting, Nat.add_le_add_iff_right, nestingMembers_append, nestingMembers_append,
    Nat.max_le, Nat.max_le, nesting_given_le, nesting_given_le, nesting_given_le]
  exact ⟨⟨fun c hc => (hread c hc).2, fun c hc => (hwrite c hc).2⟩, fun c hc => (hdrop c hc).2⟩

def Use.outline : Outline :=
  .record [("location", .whole), ("expected", Permissions.outline),
    ("actual", Permissions.outline), ("was_copied", .whole),
    ("explanations", Explanations.outline)]

theorem Use.gives : decoder.Gives root outline (Within Sendable toJson) := by
  refine gives_record (by decide) (.seq (.seq (.seq (.seq (.map (.required gives_size _) ?_)
    (.required Permissions.gives _)) (.required Permissions.gives _))
    (.defaulted gives_trivial _ fun _ => trivial))
    (.defaultedWithin Explanations.gives _ ⟨⟨nofun, nofun, nofun⟩, Nat.le_refl 1⟩))
  intro b location hlocation expected hexpected actual hactual copied _ explanations hexplanations
  refine ⟨⟨hlocation, hexplanations.1⟩, ?_⟩
  have hshort := hexplanations.of_open (Nat.le_trans (Nat.le_add_left 1 _) hexpected.2)
  simpa [toJson, nesting, nestingMembers, ofNat, Nat.max_le] using
    ⟨hexpected.2, hactual.2, hshort.2⟩

/-! ## Changes -/

def Shift.outline : Outline := .inside [("High", []), ("Low", []), ("None", [("value", .whole)])]

theorem Shift.gives {α : Type} {d : Decoder α} {f : α → Json} (hf : ∀ a, (f a).nesting = 0) :
    (decoder d).Gives root outline (Within (fun _ => True) (toJson f)) := by
  refine gives_inside (.cons ⟨rfl, .bare fun b hb => ⟨trivial, hb⟩⟩
    (.cons ⟨rfl, .bare fun b hb => ⟨trivial, hb⟩⟩
    (.cons ⟨rfl, .record (by decide) (.map (.optional gives_trivial _) ?_)⟩ .nil)))
  intro b value _
  refine ⟨trivial, ?_⟩
  cases value <;> simp [toJson, Json.orNull, nesting, hf]

def PermissionShifts.outline : Outline :=
  .record [("read", Shift.outline), ("write", Shift.outline), ("drop", Shift.outline)]

theorem Shift.gives_plain :
    plain.Gives root outline (Within (fun _ => True) (toJson .bool)) :=
  Shift.gives fun _ => rfl

theorem Shift.gives_keyed :
    keyed.Gives root outline (Within (fun _ => True) (toJson PlaceChange.keyToJson)) :=
  Shift.gives fun _ => rfl

theorem PermissionShifts.gives : decoder.Gives root outline (Within (fun _ => True) toJson) := by
  refine gives_record (by decide) (.seq (.seq (.map (.required Shift.gives_plain _) ?_)
    (.required Shift.gives_plain _)) (.required Shift.gives_plain _))
  intro b read hread write hwrite drop hdrop
  refine ⟨trivial, ?_⟩
  simpa [toJson, nesting, nestingMembers, Nat.max_le] using ⟨hread.2, hwrite.2, hdrop.2⟩

def PlaceChange.outline : Outline :=
  .record [("is_live", Shift.outline), ("path_moved", Shift.outline),
    ("loan_read_refined", Shift.outline), ("loan_write_refined", Shift.outline),
    ("loan_drop_refined", Shift.outline), ("permissions", PermissionShifts.outline)]

theorem PlaceChange.gives : decoder.Gives root outline (Within (fun _ => True) toJson) := by
  refine gives_record (by decide) (.seq (.seq (.seq (.seq (.seq
    (.map (.required Shift.gives_plain _) ?_) (.required Shift.gives_keyed _))
    (.required Shift.gives_keyed _)) (.required Shift.gives_keyed _))
    (.required Shift.gives_keyed _)) (.required PermissionShifts.gives _))
  intro b isLive h₁ moved h₂ readRefined h₃ writeRefined h₄ dropRefined h₅ permissions h₆
  refine ⟨trivial, ?_⟩
  simpa [toJson, nesting, nestingMembers, Nat.max_le] using ⟨h₁.2, h₂.2, h₃.2, h₄.2, h₅.2, h₆.2⟩

def Statement.outline : Outline :=
  .record [("location", Span.outline), ("state", .list (.tuple [.whole, PlaceChange.outline]))]

theorem Statement.gives :
    decoder.Gives root outline (Within (fun s => s.location.Sendable) toJson) := by
  have hplace : (Decoder.pair .string PlaceChange.decoder).Gives root
      (.tuple [.whole, PlaceChange.outline]) (Within (fun _ => True) placeToJson) := by
    refine gives_trivial.pairOf PlaceChange.gives (fun b place change _ hchange => ?_) _ _
    exact ⟨trivial, by simpa [placeToJson, nesting, nestingItems] using hchange.2⟩
  refine gives_record (by decide) (.seq (.map (.required Span.gives _) ?_)
    (.required hplace.listWithin _))
  intro b location hlocation places hplaces
  exact ⟨hlocation.1, by
    simpa [toJson, nesting, nestingMembers, Nat.max_le] using ⟨hlocation.2, hplaces.2⟩⟩

/-! ## Bodies -/

def Loan.outline : Outline :=
  .record [("key", .whole), ("issued_at", Span.outline), ("start", .whole), ("end", .whole),
    ("refined_ranges", .list Span.outline)]

theorem Loan.gives : decoder.Gives root outline (Within Sendable toJson) := by
  refine gives_record (by decide) (.seq (.seq (.seq (.seq (.map (.required gives_trivial _) ?_)
    (.required Span.gives _)) (.required gives_size _)) (.required gives_size _))
    (.defaultedWithin Span.gives.listWithin _ ⟨List.forall_mem_nil _, Nat.le_refl 1⟩))
  intro b key _ issuedAt hissued start hstart stop hstop refined hrefined
  refine ⟨⟨hissued.1, hstart, hstop, hrefined.1⟩, ?_⟩
  have hshort := hrefined.of_open (Nat.le_trans issuedAt.one_le_nesting hissued.2)
  simpa [toJson, nesting, nestingMembers, ofNat, Nat.max_le] using ⟨hissued.2, hshort.2⟩

/-- What is known of the facts of a body. -/
def BodyFacts.outline : Outline :=
  .record [("body_range", Span.outline), ("boundaries", .list Use.outline),
    ("steps", .list Statement.outline), ("loans", .list Loan.outline)]

/-- **What the facts of a body are read as can be sent.** -/
theorem BodyFacts.gives : decoder.Gives root outline (Within Sendable toJson) := by
  refine gives_record (by decide) (.seq (.seq (.seq (.map (.required Span.gives _) ?_)
    (.defaultedWithin Use.gives.listWithin _ ⟨List.forall_mem_nil _, Nat.le_refl 1⟩))
    (.defaultedWithin Statement.gives.listWithin _ ⟨List.forall_mem_nil _, Nat.le_refl 1⟩))
    (.defaultedWithin Loan.gives.listWithin _ ⟨List.forall_mem_nil _, Nat.le_refl 1⟩))
  intro b body hbody uses huses statements hstatements loans hloans
  refine ⟨⟨hbody.1, huses.1, hstatements.1, hloans.1⟩, ?_⟩
  have hopen : 1 ≤ b := Nat.le_trans body.one_le_nesting hbody.2
  simpa [toJson, nesting, nestingMembers, Nat.max_le] using
    ⟨hbody.2, (huses.of_open hopen).2, (hstatements.of_open hopen).2, (hloans.of_open hopen).2⟩

/-- What is known of the uses in a body. -/
def BodyUses.outline : Outline :=
  .record [("body_range", Span.outline), ("boundaries", .list Use.outline)]

/-- **What the uses in a body are read as can be sent.** -/
theorem BodyUses.gives : decoder.Gives root outline (Within Sendable toJson) := by
  refine gives_record (by decide) (.seq (.map (.required Span.gives _) ?_)
    (.defaultedWithin Use.gives.listWithin _ ⟨List.forall_mem_nil _, Nat.le_refl 1⟩))
  intro b body hbody uses huses
  refine ⟨⟨hbody.1, huses.1⟩, ?_⟩
  have hopen : 1 ≤ b := Nat.le_trans body.one_le_nesting hbody.2
  simpa [toJson, nesting, nestingMembers, Nat.max_le] using
    ⟨hbody.2, (huses.of_open hopen).2⟩

end Marginalia
