import Marginalia.Exchange.Reply
import Marginalia.Proofs.Trace.Codec

/-!
# Exchange — replies are read back

A text does not say which command it replies to. Read as the reply to the
command that reports such a payload, the text of a reply is that reply
again; a refusal is read back whatever was asked for. Only a text that
nests deeper than a reader goes is not read (`Reply.decode_of_encode`).
-/

namespace Marginalia

open Json Json.Decoder

variable {α : Type} {m : Nat}

/-! ## Outcomes -/

/-- The place of a refusal fits, if it is known. -/
def Refusal.Sendable (r : Refusal) : Prop := ∀ s ∈ r.span?, s.Sendable

instance (r : Refusal) : Decidable r.Sendable := inferInstanceAs (Decidable (∀ s ∈ r.span?, _))

/-- **A refusal is read back**, with its place or without. -/
theorem Refusal.reads {r : Refusal} (h : r.Sendable) : Reads m decoder r.toJson r := by
  refine Reads.mono ?_ (Nat.le_add_right m 1)
  match r with
  | .build reason none =>
    exact reads_inside rfl (((Fields.Reads.required rfl (reads_string reason)).map _).seq
        (.given (f := Span.toJson) rfl (by simp) Span.toJson_ne_null))
      ⟨by simp [Json.given], by simp [Json.given]⟩ (by simp [Json.given])
      (by simp [Json.given, held_string])
  | .build reason (some span) =>
    have hspan : span.Sendable := h span rfl
    exact reads_inside rfl (((Fields.Reads.required rfl (reads_string reason)).map _).seq
        (.given (f := Span.toJson) rfl (by rintro _ ⟨⟩; exact Span.reads hspan)
          Span.toJson_ne_null))
      ⟨by simp [Json.given], by simp [Json.given]⟩ (by simp [Json.given])
      (by simp [Json.given, held_string, Span.held hspan])
  | .analysis reason =>
    exact reads_inside rfl ((Fields.Reads.required rfl (reads_string reason)).map _)
      ⟨by simp, by simp⟩ (by simp) (by simp [held_string])

/-- What an outcome reports, or its refusal, can be sent. -/
def Outcome.Sendable (S : α → Prop) : Outcome α → Prop
  | .ok a => S a
  | .error refusal => refusal.Sendable

instance (S : α → Prop) [DecidablePred S] : (o : Outcome α) → Decidable (o.Sendable S)
  | .ok a => inferInstanceAs (Decidable (S a))
  | .error refusal => inferInstanceAs (Decidable refusal.Sendable)

/-- **An outcome is read back** if what it reports is. -/
theorem Outcome.reads {S : α → Prop} {d : Decoder α} {f : α → Json} {o : Outcome α}
    (ho : o.Sendable S) (h : ∀ {a}, S a → Reads m d (f a) a) :
    Reads m (decoder d) (toJson f o) o := by
  refine Reads.mono ?_ (Nat.le_add_right m 1)
  cases o with
  | ok a => exact reads_result_ok (h ho)
  | error refusal => exact reads_result_error (Refusal.reads ho)

/-! ## Replies -/

/-- Everything that a payload reports can be sent. -/
def Payload.Sendable : Payload → Prop
  | permissions units => ∀ u ∈ units, u.Sendable BodyFacts.Sendable
  | boundaries units => ∀ u ∈ units, u.Sendable BodyUses.Sendable
  | interpreter raw => raw.Sendable

/-- Every value in a payload. -/
def Payload.values : Payload → List Value
  | interpreter raw => raw.values
  | _ => []

namespace Reply

/-- **What can be sent as a reply**: every offset and count in it fits a
machine word, and every excerpt is proper. -/
def Sendable (r : Reply) : Prop := Outcome.Sendable Payload.Sendable r

/-- Every value in a reply. -/
def values : Reply → List Value
  | .ok payload => payload.values
  | .error _ => []

variable {c : Command} {d : Decoder α} {payload : α → Payload} {j : Json} {o : Outcome α}

/-! ## The command of a payload -/

/-- A reply that is read with payloads of one kind brings one of them. -/
theorem payload_of_read {text : String} {found : Payload}
    (h : read c d payload text = .ok (.ok found)) : ∃ a, found = payload a := by
  unfold read at h
  split at h
  · cases h
  · rename_i outcome _
    cases outcome with
    | error r => cases h
    | ok a => exact ⟨a, (Except.ok.inj (Except.ok.inj h)).symm⟩

/-- **The payload of a reply is of the command that was asked for.** -/
theorem command_of_decode {text : String} {found : Payload}
    (h : decode c text = .ok (.ok found)) : found.command = c := by
  cases c <;>
  · obtain ⟨a, rfl⟩ := payload_of_read h
    rfl

/-- What cannot be read is never a payload of another command. -/
theorem ne_mismatch_of_decode {text : String} {m : Malformed} (h : decode c text = .error m)
    (expected found : Command) : m ≠ .mismatch expected found := by
  cases c <;>
  · simp only [decode, read] at h
    split at h
    · cases h
      exact Malformed.noConfusion
    · cases h

/-! ## Reading back -/

/-- A text that is read back as an outcome makes the reply of it. -/
theorem read_text (h : Reads (depthLimit + 1) (Outcome.decoder d) j o) :
    read c d payload j.text =
      if j.nesting ≤ depthLimit then .ok (o.map payload) else .error (.unreadable c .tooDeep) := by
  rw [read, h.decodeText]
  unfold ifRoom
  rcases Nat.lt_or_ge depthLimit j.nesting with hdeep | hroom
  · simp only [if_neg (Nat.not_le.mpr hdeep)]
  · simp only [if_pos hroom]

/-- The text of a reply, to the command that it replies to. -/
theorem decode_encode_eq {r : Reply} (hr : r.Sendable) (hx : ∀ v ∈ r.values, v.DoublesReadBack)
    (hc : ∀ payload, r = .ok payload → payload.command = c) :
    decode c r.encode =
      if r.toJson.nesting ≤ depthLimit then .ok r else .error (.unreadable c .tooDeep) := by
  match r with
  | .error refusal =>
    -- the text is the same, whatever a success would have reported
    have hrefusal {α : Type} (d : Decoder α) :
        Reads (depthLimit + 1) (Outcome.decoder d) (toJson (.error refusal)) (.error refusal) :=
      (reads_result_error (Refusal.reads hr)).mono (Nat.le_succ _)
    cases c with
    | permissions => rw [decode, encode, read_text (hrefusal _)]; rfl
    | boundaries => rw [decode, encode, read_text (hrefusal _)]; rfl
    | interpreter => rw [decode, encode, read_text (hrefusal _)]; rfl
  | .ok (.permissions units) =>
    have hunits : Reads (depthLimit + 1) (Outcome.decoder (.list (Outcome.decoder _)))
        (toJson (.ok (.permissions units))) (.ok units) :=
      reads_result_ok ((reads_list fun u hu => Outcome.reads (hr u hu) BodyFacts.reads).mono
        (Nat.le_succ _))
    rw [← hc _ rfl, Payload.command, decode, encode, read_text hunits]
    rfl
  | .ok (.boundaries units) =>
    have hunits : Reads (depthLimit + 1) (Outcome.decoder (.list (Outcome.decoder _)))
        (toJson (.ok (.boundaries units))) (.ok units) :=
      reads_result_ok ((reads_list fun u hu => Outcome.reads (hr u hu) BodyUses.reads).mono
        (Nat.le_succ _))
    rw [← hc _ rfl, Payload.command, decode, encode, read_text hunits]
    rfl
  | .ok (.interpreter raw) =>
    have hraw : Reads (depthLimit + 1) (Outcome.decoder RawTrace.decoder)
        (toJson (.ok (.interpreter raw))) (.ok raw) :=
      reads_result_ok (RawTrace.reads hr hx)
    rw [← hc _ rfl, Payload.command, decode, encode, read_text hraw]
    rfl

/-- **Every reply is read back** as the reply to its command, a refusal as
the reply to any, and is not read only where it nests too deep. -/
theorem decode_of_encode (c : Command) (r : Reply) (hr : r.Sendable)
    (hx : ∀ v ∈ r.values, v.DoublesReadBack)
    (hc : ∀ payload, r = .ok payload → payload.command = c) :
    (r.toJson.nesting ≤ 127 → decode c r.encode = .ok r) ∧
      (127 < r.toJson.nesting → decode c r.encode = .error (.unreadable c .tooDeep)) := by
  rw [decode_encode_eq hr hx hc]
  exact ⟨fun h => if_pos h, fun h => if_neg (Nat.not_le.mpr h)⟩

/-- A body with every field given and one with hardly any, beside
refusals; an execution with doubles and an elided array; and one that
nests too deep. -/
theorem decode_of_encode_of_samples :
    let span : Span := ⟨3, 5⟩
    let full : BodyFacts :=
      ⟨span,
        [⟨4, ⟨true, false, true⟩, .empty, true,
          ⟨some (.refined ⟨.move span, [span, ⟨9, 7⟩], 1, 0⟩), none, some .insufficientType⟩⟩],
        [⟨span, [("x", ⟨.high, .none (some 7), .low, .none none, .high,
          ⟨.none (some true), .low, .none none⟩⟩)]⟩],
        [⟨4294967295, span, 8, 2, [span]⟩]⟩
    let bare : BodyFacts := ⟨span, [⟨0, .empty, .empty, false, .empty⟩], [], []⟩
    let units : List (Outcome BodyFacts) := [.ok full, .error (.build "no" (some span)), .ok bare,
      .error (.build "no" none), .error (.analysis "")]
    let found : Reply := .ok (.permissions units)
    let values : List Value := [.float .nan, .float (.finite false ⟨4609434218613702656, by decide⟩),
      .array (.shorten [.uint 1, .bool true, .char 'c'] 1)]
    let ran : Reply := .ok (.interpreter
      ⟨[⟨[⟨"main", span, span, [⟨"x", .pointer (.heap 1)⟩]⟩], values⟩, ⟨[], []⟩],
        .fault "overflow" none⟩)
    let deep : Reply := .ok (.interpreter
      ⟨[⟨[], [Nat.repeat (fun v => .list [v]) 42 (.bool true)]⟩], .success⟩)
    decode .permissions found.encode = .ok found ∧ decode .interpreter ran.encode = .ok ran ∧
      decode .interpreter deep.encode = .error (.unreadable .interpreter .tooDeep) := by
  intro span full bare units found values ran deep
  have hunits : ∀ u ∈ units, u.Sendable BodyFacts.Sendable := by decide
  have hvalues : ∀ v ∈ values, v.Sendable := by
    simp only [values, List.forall_mem_cons]
    refine ⟨(Value.Built.float _).sendable, (Value.Built.float _).sendable,
      (Value.Built.shorten ?_ (by decide) _).sendable, List.forall_mem_nil _⟩
    simp only [List.forall_mem_cons]
    exact ⟨.uint _, .bool _, .char _, List.forall_mem_nil _⟩
  have hframe : (⟨"main", span, span, [⟨"x", .pointer (.heap 1)⟩]⟩ : Frame).Sendable := by
    refine ⟨by decide, by decide, List.forall_mem_singleton.mpr ?_⟩
    have hpath : (Path.heap 1).Addressable :=
      ⟨show 1 < wordBound by decide, List.forall_mem_nil _⟩
    exact (Value.Built.pointer hpath).sendable
  have hran : ran.Sendable := by
    refine ⟨List.forall_mem_cons.mpr ⟨⟨List.forall_mem_singleton.mpr hframe, hvalues⟩, ?_⟩, nofun⟩
    exact List.forall_mem_singleton.mpr ⟨List.forall_mem_nil _, List.forall_mem_nil _⟩
  have hlists (n : Nat) : (Nat.repeat (fun v => Value.list [v]) n (.bool true)).Built := by
    induction n with
    | zero => exact .bool true
    | succ n ih => exact .list (List.forall_mem_singleton.mpr ih) (show 1 < wordBound by decide)
  have hdeep : deep.Sendable := by
    refine ⟨List.forall_mem_singleton.mpr ⟨List.forall_mem_nil _, ?_⟩, trivial⟩
    exact List.forall_mem_singleton.mpr (hlists 42).sendable
  have hdoubles : ∀ v ∈ ran.values ++ deep.values, ∀ x ∈ v.doubles, x.ReadsBack := by
    decide +kernel
  rw [List.forall_mem_append] at hdoubles
  refine ⟨(decode_of_encode _ found hunits (List.forall_mem_nil _) ?_).1 (by decide +kernel),
    (decode_of_encode _ ran hran (fun v hv _ _ => hdoubles.1 v hv _) ?_).1 (by decide +kernel),
    (decode_of_encode _ deep hdeep (fun v hv _ _ => hdoubles.2 v hv _) ?_).2 (by decide +kernel)⟩
  all_goals
    intro payload heq
    cases Except.ok.inj heq
    rfl

end Reply

end Marginalia
