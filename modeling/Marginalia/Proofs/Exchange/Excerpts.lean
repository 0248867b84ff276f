import Marginalia.Proofs.Exchange.Canonical
import Marginalia.Proofs.State.Overfull
import Marginalia.Proofs.Trace.Counting

/-!
# Exchange — the excerpts in everything that is read

Whatever a value or a reply was spelled as, every excerpt in it holds no
more elements than its sequence had, and one that lacks none has no last
element of its own. A message that says otherwise anywhere is refused, and
what is read can be counted in machine words (`Reply.excerpts_in_order`).
-/

namespace Marginalia

open Json Json.Decoder

/-! ## Executions -/

theorem Binding.enforces :
    decoder.Enforces Value.demand outline fun b => b.value.Sized := by
  refine enforces_record (.seq (.map (.required (enforces_of_lacks rfl) _) ?_)
    (.required Value.enforces.again _))
  exact fun _ _ _ hvalue => hvalue

theorem Frame.enforces :
    decoder.Enforces Value.demand outline fun f => ∀ v ∈ f.values, v.Sized := by
  have hlocals : (Decoder.list Binding.decoder).Enforces Value.demand (.list Binding.outline)
      fun locals => ∀ b ∈ locals, b.value.Sized :=
    Binding.enforces.list fun _ _ hlocals => hlocals
  refine enforces_record (.seq (.seq (.seq (.map (.required (enforces_of_lacks rfl) _) ?_)
    (.required (enforces_of_lacks rfl) _)) (.required (enforces_of_lacks rfl) _))
    (.required hlocals _))
  exact fun _ _ _ _ _ _ _ hlocals => List.forall_mem_map.mpr hlocals

theorem RawStep.enforces :
    decoder.Enforces Value.demand outline fun s => ∀ v ∈ s.values, v.Sized := by
  have hframes : (Decoder.list Frame.decoder).Enforces Value.demand (.list Frame.outline)
      fun frames => ∀ f ∈ frames, ∀ v ∈ f.values, v.Sized :=
    Frame.enforces.list fun _ _ hframes => hframes
  have hheap : (Decoder.list Value.decoder).Enforces Value.demand (.list .again)
      fun heap => ∀ v ∈ heap, v.Sized :=
    Value.enforces.again.list fun _ _ hheap => hheap
  refine enforces_record (.seq (.map (.required hframes _) ?_)
    (.defaulted hheap _ (List.forall_mem_nil _)))
  intro frames hframes heap hheap
  exact List.forall_mem_append.mpr ⟨List.forall_mem_flatMap.mpr hframes, hheap⟩

theorem RawTrace.enforces :
    decoder.Enforces Value.demand outline fun t => ∀ v ∈ t.values, v.Sized := by
  have hsteps : (Decoder.list RawStep.decoder).Enforces Value.demand (.list RawStep.outline)
      fun steps => ∀ s ∈ steps, ∀ v ∈ s.values, v.Sized :=
    RawStep.enforces.list fun _ _ hsteps => hsteps
  refine enforces_record (.seq (.map (.required hsteps _) ?_)
    (.defaulted (enforces_of_lacks rfl) _ trivial))
  exact fun _ hsteps _ _ => List.forall_mem_flatMap.mpr hsteps

theorem Outcome.enforces {α : Type} {reported : Outline} {d : Decoder α} {P : α → Prop}
    (h : d.Enforces Value.demand reported P) :
    (decoder d).Enforces Value.demand (outline reported) fun o => ∀ a, o = .ok a → P a := by
  refine enforces_result h (enforces_of_lacks rfl) ?_ ?_
  · rintro a ha _ ⟨⟩
    exact ha
  · exact fun _ _ => nofun

/-! ## Values that can be sent -/

/-- What can be sent is in order. -/
theorem Value.Sendable.proper {v : Value} (h : v.Sendable) : v.Proper where
  strings _ hunits := (h _ hunits : Excerpt.Writable _).proper
  arrays _ hitems := (h _ hitems : Excerpt.Writable _).proper

theorem RawTrace.Sendable.values {t : RawTrace} (h : t.Sendable) : ∀ v ∈ t.values, v.Sendable := by
  refine List.forall_mem_flatMap.mpr fun s hs => ?_
  refine List.forall_mem_append.mpr ⟨List.forall_mem_flatMap.mpr fun f hf => ?_, ?_⟩
  · exact ((h.steps s hs).frames f hf).values
  · exact (h.steps s hs).heap

theorem Reply.Sendable.values {r : Reply} (h : r.Sendable) : ∀ v ∈ r.values, v.Sendable := by
  cases r with
  | error refusal => exact List.forall_mem_nil _
  | ok payload =>
    cases payload with
    | interpreter raw => exact RawTrace.Sendable.values h
    | _ => exact List.forall_mem_nil _

/-! ## Whole texts -/

/-- **What is read of bytes** met the demand, and can be counted if the
bytes can. -/
theorem Value.enforced_of_decode {bytes : ByteArray} {v : Value} (h : decode bytes = .ok v) :
    demand.Met outline (Node.ofText (Text.glyphs bytes)).1 ∧
      v.Proper ∧ (bytes.size < wordBound → v.Countable) := by
  obtain ⟨hmet, hsized⟩ := enforces (decode_eq_ok h).1
  have hproper : v.Proper := (within_of_decode h).1.proper
  refine ⟨hmet, hproper, fun hsize => hproper.countable (hsized ?_)⟩
  have hwidth := width_ofText_le (Text.glyphs bytes)
  have hlength := length_glyphs_le bytes
  omega

namespace Reply

variable {c : Command} {text : String} {r : Reply}

theorem enforced_of_read {α : Type} {d : Decoder α} {payload : α → Payload} {reported : Outline}
    (h : read c d payload text = .ok r)
    (hd : d.Enforces Value.demand reported fun a => ∀ v ∈ (payload a).values, v.Sized) :
    Value.demand.Met (Outcome.outline reported) (Node.ofText (Text.glyphsOfText text)).1 ∧
      (text.toUTF8.size < wordBound → ∀ v ∈ r.values, v.Sized) := by
  unfold read at h
  split at h
  · cases h
  · rename_i outcome houtcome
    cases h
    obtain ⟨hmet, hsized⟩ := Outcome.enforces hd (decode_eq_ok houtcome).1
    refine ⟨hmet, fun hsize => ?_⟩
    cases outcome with
    | error refusal => exact List.forall_mem_nil _
    | ok a =>
      refine hsized ?_ a rfl
      have hwidth := width_ofText_le (Text.glyphsOfText text)
      have hlength := length_glyphs_le text.toUTF8
      rw [Text.glyphs_toUTF8] at hlength
      omega

/-- **What is read of a reply** met the demand, and can be counted if the
text can. -/
theorem enforced_of_decode (h : decode c text = .ok r) :
    Value.demand.Met (outline c) (Node.ofText (Text.glyphsOfText text)).1 ∧
      ∀ v ∈ r.values, v.Proper ∧ (text.toUTF8.size < wordBound → v.Countable) := by
  have hmet : Value.demand.Met (outline c) (Node.ofText (Text.glyphsOfText text)).1 ∧
      (text.toUTF8.size < wordBound → ∀ v ∈ r.values, v.Sized) := by
    cases c with
    | permissions =>
      exact enforced_of_read h fun _ node _ _ =>
        ⟨Demand.met_of_lacks rfl node, fun _ => List.forall_mem_nil _⟩
    | boundaries =>
      exact enforced_of_read h fun _ node _ _ =>
        ⟨Demand.met_of_lacks rfl node, fun _ => List.forall_mem_nil _⟩
    | interpreter => exact enforced_of_read h RawTrace.enforces
  obtain ⟨hmet, hsized⟩ := hmet
  refine ⟨hmet, fun v hv => ?_⟩
  have hproper : v.Proper := ((within_of_decode h).1.values v hv).proper
  exact ⟨hproper, fun hsize => hproper.countable (hsized hsize v hv)⟩

/-! ## In order -/

/-- **Everything that is read is in order**: each excerpt in a value, and in
the values of a reply, is proper, and what is counted of it fits machine
words. A message with an overfull excerpt at any place where an excerpt is
wanted is refused. -/
theorem excerpts_in_order :
    (∀ (bytes : ByteArray) (v : Value), Value.decode bytes = .ok v →
      v.Proper ∧ (bytes.size < wordBound → v.Countable)) ∧
    (∀ (bytes : ByteArray) (item : Outline) (node : Node),
      Outline.Reaches Value.outline Value.outline (Node.ofText (Text.glyphs bytes)).1
        (Excerpt.outline item) node →
      Excerpt.Overfull node → ∃ fault, Value.decode bytes = .error fault) ∧
    (∀ (c : Command) (text : String) (r : Reply), decode c text = .ok r →
      ∀ v ∈ r.values, v.Proper ∧ (text.toUTF8.size < wordBound → v.Countable)) ∧
    ∀ (c : Command) (text : String) (item : Outline) (node : Node),
      Outline.Reaches Value.outline (outline c) (Node.ofText (Text.glyphsOfText text)).1
        (Excerpt.outline item) node →
      Excerpt.Overfull node → ∃ m, decode c text = .error m := by
  refine ⟨?value, ?refusedValue, ?reply, ?refusedReply⟩
  case value => exact fun bytes v h => (Value.enforced_of_decode h).2
  case refusedValue =>
    intro bytes item node hreaches hover
    cases h : Value.decode bytes with
    | error fault => exact ⟨fault, rfl⟩
    | ok v =>
      have hmet := (Value.enforced_of_decode h).1
      exact absurd hover (hmet _ node hreaches rfl)
  case reply => exact fun c text r h => (enforced_of_decode h).2
  case refusedReply =>
    intro c text item node hreaches hover
    cases h : decode c text with
    | error m => exact ⟨m, rfl⟩
    | ok r =>
      have hmet := (enforced_of_decode h).1
      exact absurd hover (hmet _ node hreaches rfl)

set_option maxRecDepth 1000 in
/-- A text in an array whose length is the largest machine word, and one
that is shorter than what is given of it; each by itself and in a reply. -/
theorem excerpts_in_order_of_nested :
    let v : Value := .array ⟨[.string ⟨[97], some 122, 18446744073709551615⟩], none, 3⟩
    let message := "[\"Array\",[\"Only\",\x7b\"prefix\":[[\"String\",[\"Only\",\x7b\"prefix\":" ++
      "[97],\"last\":122,\"len\":18446744073709551615\x7d]]],\"len\":3\x7d]]"
    let overfull := "[\"Array\",[\"All\",[[\"String\",[\"Only\"," ++
      "\x7b\"prefix\":[97],\"len\":0\x7d]]]]]"
    let reply (value : String) := "\x7b\"Ok\":[[[[],[" ++ value ++ "]]]]\x7d"
    let r : Reply := .ok (.interpreter ⟨[⟨[], [v]⟩], .success⟩)
    (Value.decode message.toUTF8 = .ok v ∧ v.Proper ∧ v.Countable) ∧
      (∃ fault, Value.decode overfull.toUTF8 = .error fault) ∧
      (decode .interpreter (reply message) = .ok r ∧ ∀ v ∈ r.values, v.Proper ∧ v.Countable) ∧
      ∃ m, decode .interpreter (reply overfull) = .error m := by
  intro v message overfull reply r
  -- the two messages that are refused, from the excerpt outwards
  let excerpt : Node := .array [.string (some "Only"), .object
    [(some "prefix", .array [.number ⟨false, 97, 0, true⟩] true),
      (some "len", .number ⟨false, 0, 0, true⟩)] true] true
  let items : Node := .array [.array [.string (some "String"), excerpt] true] true
  let inner : Node :=
    .array [.string (some "Array"), .array [.string (some "All"), items] true] true
  let run : Node := .array [.array [.array [.array [] true, .array [inner] true] true] true] true
  let outer : Node := .object [(some "Ok", run)] true
  have hover : Excerpt.Overfull excerpt :=
    .pair rfl rfl rfl ⟨0, _, true, 1, _, 0, rfl, rfl, rfl, by decide⟩
  have hitems : Outline.Reaches Value.outline (.list .again) items (Excerpt.outline .whole)
      excerpt :=
    .item (i := 0) rfl (Outline.reaches_again.mpr (.beside (by rfl) (.here _ _)))
  have hinner : Outline.Reaches Value.outline Value.outline inner (Excerpt.outline .whole)
      excerpt :=
    .beside (by rfl) (.beside (by rfl) hitems)
  have hrun : Outline.Reaches Value.outline RawTrace.outline run (Excerpt.outline .whole)
      excerpt :=
    .item (i := 0) rfl (.item (i := 0) rfl (.item (i := 1) rfl (.item (i := 0) rfl
      (Outline.reaches_again.mpr hinner))))
  have houter : Outline.Reaches Value.outline (outline .interpreter) outer
      (Excerpt.outline .whole) excerpt := by
    have hok : findMember "Ok" [(some "Ok", run)] = some (0, run) := rfl
    exact .member hok (by rfl) hrun
  refine ⟨?value, ?refusedValue, ?reply, ?refusedReply⟩
  case value =>
    have hread : Value.decode message.toUTF8 = .ok v := by
      rw [Value.decode, Text.glyphs_toUTF8]
      dsimp only [v, message]
      cbv
    obtain ⟨hproper, hcount⟩ := excerpts_in_order.1 message.toUTF8 v hread
    exact ⟨hread, hproper, hcount (by dsimp only [message]; decide)⟩
  case refusedValue =>
    refine excerpts_in_order.2.1 overfull.toUTF8 .whole excerpt ?_ hover
    have hroot : (Node.ofText (Text.glyphs overfull.toUTF8)).1 = inner := by
      rw [Text.glyphs_toUTF8]
      dsimp only [overfull, inner, excerpt]
      cbv
    rwa [hroot]
  case reply =>
    have hread : decode .interpreter (reply message) = .ok r := by
      dsimp only [v, message, reply, r]
      cbv
    refine ⟨hread, fun v hv => ?_⟩
    obtain ⟨hproper, hcount⟩ := excerpts_in_order.2.2.1 .interpreter (reply message) r hread v hv
    exact ⟨hproper, hcount (by dsimp only [reply, message]; decide)⟩
  case refusedReply =>
    refine excerpts_in_order.2.2.2 .interpreter (reply overfull) .whole excerpt ?_ hover
    have hroot : (Node.ofText (Text.glyphsOfText (reply overfull))).1 = outer := by
      dsimp only [overfull, reply, outer, inner, excerpt]
      cbv
    rwa [hroot]

end Reply

end Marginalia
