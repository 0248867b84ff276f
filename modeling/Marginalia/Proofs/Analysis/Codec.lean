import Marginalia.Analysis.Body
import Marginalia.Proofs.Json.Tagged
import Mathlib.Tactic.MkIffOfInductiveProp

/-!
# Analysis — what is found in a body is read back

Every offset that is sent fits a machine word; keys are 32 bits wide as
they stand. Under this alone each part of an analysis is read back as it
was, down to the explanations that are not given
(`Explanations.reads`), the cause whose fields stand beside the name of
its kind (`Cause.reads`) and the fact that stays as it is without a value
(`Shift.reads`).
-/

namespace Marginalia

open Json Json.Decoder

variable {m : Nat}

/-! ## Spans -/

/-- The ends of a span fit machine words. -/
@[mk_iff] structure Span.Sendable (s : Span) : Prop where
  start : s.start < wordBound
  stop : s.stop < wordBound

instance (s : Span) : Decidable s.Sendable := decidable_of_iff' _ (Span.sendable_iff s)

theorem Span.toJson_ne_null (s : Span) : s.toJson ≠ .null := by simp [toJson]

theorem Span.reads {s : Span} (h : s.Sendable) : Reads m decoder s.toJson s := by
  refine Reads.mono (reads_record ?_ ⟨by simp, by simp⟩) (Nat.le_add_right m 1)
  exact ((Fields.Reads.required rfl (reads_size h.start)).map _).seq
    (.required rfl (reads_size h.stop))

theorem Span.held {s : Span} (h : s.Sendable) : s.toJson.Held :=
  held_object (by simp [held_ofNat, h.start, h.stop])

/-! ## Permissions -/

theorem Permissions.reads (p : Permissions) : Reads m decoder p.toJson p := by
  refine Reads.mono (reads_record ?_ ⟨by simp, by simp⟩) (Nat.le_add_right m 1)
  exact (((Fields.Reads.required rfl (reads_bool p.read)).map _).seq
    (.required rfl (reads_bool p.write))).seq (.required rfl (reads_bool p.drop))

/-! ## Uses -/

/-- The span of a borrow or move fits. -/
def Refiner.Sendable : Refiner → Prop
  | .loan span => span.Sendable
  | .move span => span.Sendable

instance : (r : Refiner) → Decidable r.Sendable
  | .loan span => inferInstanceAs (Decidable span.Sendable)
  | .move span => inferInstanceAs (Decidable span.Sendable)

theorem Refiner.reads {r : Refiner} (h : r.Sendable) : Reads m decoder r.toJson r := by
  cases r with
  | loan span =>
    exact Reads.mono (.beside rfl ((Span.reads h).map _)) (Nat.le_add_right m 1)
  | move span =>
    exact Reads.mono (.beside rfl ((Span.reads h).map _)) (Nat.le_add_right m 1)

theorem Refiner.held {r : Refiner} (h : r.Sendable) : r.toJson.Held := by
  cases r with
  | loan span => exact held_tagged (Span.held h)
  | move span => exact held_tagged (Span.held h)

/-- The offsets of a refinement fit. -/
@[mk_iff] structure Refinement.Sendable (r : Refinement) : Prop where
  refiner : r.refiner.Sendable
  refined : ∀ s ∈ r.refined, s.Sendable
  start : r.start < wordBound
  stop : r.stop < wordBound

instance (r : Refinement) : Decidable r.Sendable := decidable_of_iff' _ (Refinement.sendable_iff r)

theorem Refinement.reads {r : Refinement} (h : r.Sendable) : Reads m decoder r.toJson r := by
  refine Reads.mono (reads_record ?_ ⟨by simp [members], by simp [members]⟩)
    (Nat.le_add_right m 2)
  have hrefined := reads_list (n := m) fun s hs => Span.reads (h.refined s hs)
  exact ((((Fields.Reads.required rfl (Refiner.reads h.refiner)).map _).seq
    (.required rfl hrefined)).seq (.required rfl (reads_size h.start))).seq
    (.required rfl (reads_size h.stop))

/-- What a cause refers to fits. -/
def Cause.Sendable : Cause → Prop
  | .insufficientType => True
  | .refined r => r.Sendable

instance : (c : Cause) → Decidable c.Sendable
  | .insufficientType => inferInstanceAs (Decidable True)
  | .refined r => inferInstanceAs (Decidable r.Sendable)

/-- **A cause is read back**, the fields of a refinement from beside the
name of the kind. -/
theorem Cause.reads {c : Cause} (h : c.Sendable) : Reads m decoder c.toJson c := by
  refine Reads.mono ?_ (Nat.le_add_right m 1)
  cases c with
  | insufficientType => exact reads_inside_bare rfl
  | refined r =>
    refine reads_inside_single rfl ((Refinement.reads h).map _) (by simp [Refinement.members]) ?_
    rw [Refinement.members]
    simp only [List.forall_mem_cons]
    exact ⟨Refiner.held h.refiner, held_list fun s hs => Span.held (h.refined s hs),
      held_ofNat h.start, held_ofNat h.stop, List.forall_mem_nil _⟩

theorem Cause.toJson_ne_null (c : Cause) : c.toJson ≠ .null := by
  cases c <;> simp [toJson, kindOnly]

/-- Every cause that is given fits. -/
@[mk_iff] structure Explanations.Sendable (e : Explanations) : Prop where
  read : ∀ c ∈ e.read, c.Sendable
  write : ∀ c ∈ e.write, c.Sendable
  drop : ∀ c ∈ e.drop, c.Sendable

instance (e : Explanations) : Decidable e.Sendable :=
  decidable_of_iff' _ (Explanations.sendable_iff e)

/-- The members of explanations are those that are given. -/
def Explanations.members (e : Explanations) : List (String × Json) :=
  Json.given "read" Cause.toJson e.read ++ Json.given "write" Cause.toJson e.write ++
    Json.given "drop" Cause.toJson e.drop

/-- Each explanation stands under its name, if it is given. -/
theorem Explanations.find_members (e : Explanations) :
    let found (name : String) := (findMember name (nodeMembers e.members)).map Prod.snd
    found "read" = e.read.map (·.toJson.node) ∧ found "write" = e.write.map (·.toJson.node) ∧
      found "drop" = e.drop.map (·.toJson.node) := by
  obtain ⟨_ | read, _ | write, _ | drop⟩ := e <;> exact ⟨rfl, rfl, rfl⟩

theorem Explanations.cover_members (e : Explanations) :
    Fields.Cover ["read", "write", "drop"] e.members := by
  obtain ⟨_ | read, _ | write, _ | drop⟩ := e <;>
    exact ⟨by simp [members, Json.given], by simp [members, Json.given]⟩

/-- **Explanations are read back**, whichever of them are given. -/
theorem Explanations.reads {e : Explanations} (h : e.Sendable) :
    Reads m decoder e.toJson e := by
  obtain ⟨hread, hwrite, hdrop⟩ := e.find_members
  have hmembers : e.toJson = .object e.members := rfl
  rw [hmembers]
  refine Reads.mono (reads_record ?_ e.cover_members) (Nat.le_add_right m 1)
  exact (((Fields.Reads.given hread (fun c hc => Cause.reads (h.read c hc))
    Cause.toJson_ne_null).map _).seq
    (.given hwrite (fun c hc => Cause.reads (h.write c hc)) Cause.toJson_ne_null)).seq
    (.given hdrop (fun c hc => Cause.reads (h.drop c hc)) Cause.toJson_ne_null)

/-- The offset of a use and what explains it fit. -/
@[mk_iff] structure Use.Sendable (u : Use) : Prop where
  location : u.location < wordBound
  explanations : u.explanations.Sendable

instance (u : Use) : Decidable u.Sendable := decidable_of_iff' _ (Use.sendable_iff u)

theorem Use.reads {u : Use} (h : u.Sendable) : Reads m decoder u.toJson u := by
  refine Reads.mono (reads_record ?_ ⟨by simp, by simp⟩) (Nat.le_add_right m 1)
  exact (((((Fields.Reads.required rfl (reads_size h.location)).map _).seq
    (.required rfl (Permissions.reads u.expected))).seq
    (.required rfl (Permissions.reads u.actual))).seq
    (.defaulted rfl (reads_bool u.copied))).seq
    (.defaulted rfl (Explanations.reads h.explanations))

/-! ## Changes -/

theorem held_orNull {α : Type} {f : α → Json} (o : Option α) (h : ∀ a, (f a).Held) :
    (Json.orNull f o).Held := by
  cases o with
  | none => exact held_null
  | some a => exact h a

/-- **A shift is read back**, with the value of a fact that stays as it is
or without one. -/
theorem Shift.reads {α : Type} {d : Decoder α} {f : α → Json} (s : Shift α)
    (h : ∀ a, Reads m d (f a) a) (hf : ∀ a, f a ≠ .null) (hheld : ∀ a, (f a).Held) :
    Reads m (decoder d) (s.toJson f) s := by
  refine Reads.mono ?_ (Nat.le_add_right m 1)
  cases s with
  | high => exact reads_inside_bare rfl
  | low => exact reads_inside_bare rfl
  | none value =>
    have hvalue : Reads m (optional d) (Json.orNull f value) value := by
      cases value with
      | none => exact reads_optional_none d
      | some a => exact (h a).optional_some (hf a)
    exact reads_inside rfl ((Fields.Reads.optional rfl hvalue).map _) ⟨by simp, by simp⟩
      (by simp) (by simp [held_orNull value hheld])

theorem Shift.reads_plain (s : Shift Bool) : Reads m plain (s.toJson .bool) s :=
  s.reads reads_bool (by simp) held_bool

theorem Shift.reads_keyed (s : Shift UInt32) :
    Reads m keyed (s.toJson PlaceChange.keyToJson) s := by
  refine s.reads reads_word32 (by simp [PlaceChange.keyToJson, Json.ofNat]) fun key => held_ofNat ?_
  exact Nat.lt_trans key.toNat_lt (by decide)

theorem PermissionShifts.reads (s : PermissionShifts) : Reads m decoder s.toJson s := by
  refine Reads.mono (reads_record ?_ ⟨by simp, by simp⟩) (Nat.le_add_right m 1)
  exact (((Fields.Reads.required rfl s.read.reads_plain).map _).seq
    (.required rfl s.write.reads_plain)).seq (.required rfl s.drop.reads_plain)

theorem PlaceChange.reads (c : PlaceChange) : Reads m decoder c.toJson c := by
  refine Reads.mono (reads_record ?_ ⟨by simp, by simp⟩) (Nat.le_add_right m 1)
  exact ((((((Fields.Reads.required rfl c.isLive.reads_plain).map _).seq
    (.required rfl c.moved.reads_keyed)).seq (.required rfl c.readRefined.reads_keyed)).seq
    (.required rfl c.writeRefined.reads_keyed)).seq (.required rfl c.dropRefined.reads_keyed)).seq
    (.required rfl c.permissions.reads)

theorem Statement.reads {s : Statement} (h : s.location.Sendable) :
    Reads m decoder s.toJson s := by
  refine Reads.mono (reads_record ?_ ⟨by simp, by simp⟩) (Nat.le_add_right m 3)
  have hplaces : Reads (m + 2) (.list (.pair .string PlaceChange.decoder))
      (.list placeToJson s.places) s.places :=
    reads_list fun place _ =>
      Reads.pairOf (reads_string place.1) (PlaceChange.reads place.2) _ _
  exact ((Fields.Reads.required rfl (Span.reads h)).map _).seq (.required rfl hplaces)

/-! ## Bodies -/

/-- The offsets of a loan fit. -/
@[mk_iff] structure Loan.Sendable (l : Loan) : Prop where
  issuedAt : l.issuedAt.Sendable
  start : l.start < wordBound
  stop : l.stop < wordBound
  refined : ∀ s ∈ l.refined, s.Sendable

instance (l : Loan) : Decidable l.Sendable := decidable_of_iff' _ (Loan.sendable_iff l)

theorem Loan.reads {l : Loan} (h : l.Sendable) : Reads m decoder l.toJson l := by
  refine Reads.mono (reads_record ?_ ⟨by simp, by simp⟩) (Nat.le_add_right m 2)
  have hrefined := reads_list (n := m) fun s hs => Span.reads (h.refined s hs)
  exact (((((Fields.Reads.required rfl (reads_word32 l.key)).map _).seq
    (.required rfl (Span.reads h.issuedAt))).seq (.required rfl (reads_size h.start))).seq
    (.required rfl (reads_size h.stop))).seq (.defaulted rfl hrefined)

/-- Everything that is known about a body fits. -/
@[mk_iff] structure BodyFacts.Sendable (b : BodyFacts) : Prop where
  body : b.body.Sendable
  uses : ∀ u ∈ b.uses, u.Sendable
  statements : ∀ s ∈ b.statements, s.location.Sendable
  loans : ∀ l ∈ b.loans, l.Sendable

instance (b : BodyFacts) : Decidable b.Sendable := decidable_of_iff' _ (BodyFacts.sendable_iff b)

theorem BodyFacts.reads {b : BodyFacts} (h : b.Sendable) : Reads m decoder b.toJson b := by
  refine Reads.mono (reads_record ?_ ⟨by simp, by simp⟩) (Nat.le_add_right m 2)
  have huses := reads_list (n := m) fun u hu => Use.reads (h.uses u hu)
  have hstatements := reads_list (n := m) fun s hs => Statement.reads (h.statements s hs)
  have hloans := reads_list (n := m) fun l hl => Loan.reads (h.loans l hl)
  exact ((((Fields.Reads.required rfl (Span.reads h.body)).map _).seq
    (.defaulted rfl huses)).seq (.defaulted rfl hstatements)).seq (.defaulted rfl hloans)

/-- The uses in a body fit. -/
@[mk_iff] structure BodyUses.Sendable (b : BodyUses) : Prop where
  body : b.body.Sendable
  uses : ∀ u ∈ b.uses, u.Sendable

instance (b : BodyUses) : Decidable b.Sendable := decidable_of_iff' _ (BodyUses.sendable_iff b)

theorem BodyUses.reads {b : BodyUses} (h : b.Sendable) : Reads m decoder b.toJson b := by
  refine Reads.mono (reads_record ?_ ⟨by simp, by simp⟩) (Nat.le_add_right m 2)
  have huses := reads_list (n := m) fun u hu => Use.reads (h.uses u hu)
  exact ((Fields.Reads.required rfl (Span.reads h.body)).map _).seq (.defaulted rfl huses)

end Marginalia
