import Marginalia.Proofs.Exchange.Reply
import Marginalia.Proofs.Trace.Bound
import Mathlib

/-!
# Exchange — one spelling of everything that is read

A reader takes many spellings of a value: keys in any order and beside
keys that mean nothing, records and kinds as arrays, whole numbers as
numerals or as strings, fields left out that have a value anyway. A writer
has one. What is read of a text, and written again, is read as the same
(`Reply.canonical`): it can be sent, and it nests no deeper than what is
known of the text, so that a reader goes as deep again.
-/

namespace Marginalia

open Json Json.Decoder

variable {α : Type}

/-! ## Outcomes -/

def Refusal.outline : Outline :=
  .inside [("BuildError", [("msg", .whole), ("range", Span.outline)]),
    ("AnalysisError", [("msg", .whole)])]

theorem Refusal.gives {root : Outline} : decoder.Gives root outline (Within Sendable toJson) := by
  refine gives_inside (.cons ⟨rfl, .record (by decide) (.seq (.map (.required gives_trivial _) ?_)
    (.optional Span.gives _))⟩
    (.cons ⟨rfl, .record (by decide) (.map (.required gives_trivial _) ?_)⟩ .nil))
  · intro b reason _ span hspan
    refine ⟨fun s hs => (hspan s hs).1, ?_⟩
    cases span with
    | none => simp [toJson, Json.given, nesting, nestingMembers]
    | some s => simpa [toJson, Json.given, nesting, nestingMembers] using (hspan s rfl).2
  · intro b reason _
    refine ⟨fun s hs => ?_, by simp [toJson, nesting, nestingMembers]⟩
    cases hs

/-- What is known of an outcome. -/
def Outcome.outline (reported : Outline) : Outline :=
  .record [("Ok", reported), ("Err", Refusal.outline)]

theorem Outcome.gives {root reported : Outline} {d : Decoder α} {S : α → Prop} {f : α → Json}
    (h : d.Gives root reported (Within S f)) :
    (decoder d).Gives root (outline reported) (Within (Sendable S) (toJson f)) :=
  gives_result h Refusal.gives
    (fun b a ha => ⟨ha.1, by simpa [toJson, nesting, nestingMembers] using ha.2⟩)
    fun b r hr => ⟨hr.1, by simpa [toJson, nesting, nestingMembers] using hr.2⟩

/-! ## Replies -/

namespace Reply

variable {c : Command} {text : String} {r : Reply}

/-- What is known of the reply to a command. -/
def outline : Command → Outline
  | .permissions => Outcome.outline (.list (Outcome.outline BodyFacts.outline))
  | .boundaries => Outcome.outline (.list (Outcome.outline BodyUses.outline))
  | .interpreter => Outcome.outline RawTrace.outline

theorem within_of_read {d : Decoder α} {payload : α → Payload} {reported : Outline} {b : Nat}
    (h : read c d payload text = .ok r)
    (hd : d.Gives Value.outline reported
      (Within (fun a => (payload a).Sendable) fun a => (payload a).toJson))
    (hb : min depthLimit ((Outcome.outline reported).depth Value.outline
      (Node.ofText (Text.glyphsOfText text)).1) ≤ b) :
    Within Sendable toJson b r := by
  unfold read at h
  split at h
  · cases h
  · rename_i outcome houtcome
    cases h
    have hwithin := Outcome.gives hd (decode_eq_ok houtcome).1 hb
    cases outcome <;> exact hwithin

/-- What a text is read as can be sent back, within the brackets of what is
known of the text. -/
theorem within_of_decode (h : decode c text = .ok r) :
    Within Sendable toJson (min depthLimit
      ((outline c).depth Value.outline (Node.ofText (Text.glyphsOfText text)).1)) r := by
  cases c with
  | permissions =>
    exact within_of_read h (Outcome.gives BodyFacts.gives).listWithin (Nat.le_refl _)
  | boundaries =>
    exact within_of_read h (Outcome.gives BodyUses.gives).listWithin (Nat.le_refl _)
  | interpreter => exact within_of_read h RawTrace.gives (Nat.le_refl _)

end Reply

/-- How deep a text nests. -/
def Json.textNesting (glyphs : List Text.Glyph) : Nat := (Node.ofText glyphs).1.nesting

/-- How deep a text nests, the values of unknown keys left out. -/
def Json.knownNesting (outline : Outline) (glyphs : List Text.Glyph) : Nat :=
  (outline.known Value.outline (Node.ofText glyphs).1).nesting

/-- **What is read and written again is read as the same**, values and
replies alike: it is written in one way however it was spelled, and nests
no deeper than what was known of the first text. -/
theorem Reply.canonical :
    (∀ (bytes : ByteArray) (v : Value), Value.decode bytes = .ok v → v.DoublesReadBack →
      textNesting (Text.glyphs v.encode.toUTF8) ≤
          knownNesting Value.outline (Text.glyphs bytes) ∧
        Value.decode v.encode.toUTF8 = .ok v ∧
        (Value.decode v.encode.toUTF8).map Value.encode = .ok v.encode) ∧
    ∀ (c : Command) (text : String) (r : Reply), decode c text = .ok r →
      (∀ v ∈ r.values, v.DoublesReadBack) →
        r.toJson.nesting ≤ knownNesting (outline c) (Text.glyphsOfText text) ∧
          decode c r.encode = .ok r := by
  constructor
  · intro bytes v h hx
    obtain ⟨hv, hnesting⟩ := Value.within_of_decode h
    have hreads := hv.reads hx (n := depthLimit + 1)
    have hagain : Value.decode v.encode.toUTF8 = .ok v := by
      rw [Value.decode, Value.encode, Text.glyphs_toUTF8]
      exact hreads.decodeText.trans (if_pos (Nat.le_trans hnesting (Nat.min_le_left _ _)))
    have hdeep : textNesting (Text.glyphs v.encode.toUTF8) = v.toJson.nesting := by
      rw [textNesting, Value.encode, Text.glyphs_toUTF8, nesting_ofText hreads.legible]
    rw [hdeep, hagain]
    exact ⟨Nat.le_trans hnesting (Nat.min_le_right _ _), rfl, rfl⟩
  · intro c text r h hx
    obtain ⟨hr, hnesting⟩ := within_of_decode h
    refine ⟨Nat.le_trans hnesting (Nat.min_le_right _ _), ?_⟩
    rw [decode_encode_eq hr hx fun found hfound => command_of_decode (hfound ▸ h)]
    exact if_pos (Nat.le_trans hnesting (Nat.min_le_left _ _))

/-- A value whose content comes first, with a length that is no more than
what is there, a number spelled loosely and a key that means nothing; and
a reply made of arrays, without what may be left out. -/
theorem Reply.canonical_of_loose_spellings :
    let v : Value := .list [.uint 10]
    let r : Reply :=
      .ok (.boundaries [.ok ⟨⟨0, 2⟩, [⟨4, ⟨true, false, true⟩, .empty, false, .empty⟩]⟩])
    (Value.decode ("\x7b\"value\":[\"Only\",\x7b\"len\":1,\"x\":[[[[]]]],\"last\":" ++
          "[\"Uint\",\" +1_0 \"],\"prefix\":[]\x7d],\"type\":\"Array\"\x7d").toUTF8 = .ok v ∧
        Value.decode v.encode.toUTF8 = .ok v) ∧
      decode .boundaries ("\x7b\"Ok\":[\x7b\"Ok\":[[0,2]," ++
          "[[4,[true,false,true],[false,false,false]]]]\x7d]\x7d") = .ok r ∧
        decode .boundaries r.encode = .ok r := by
  intro v r
  have hv {bytes : ByteArray} (h : Value.decode bytes = .ok v) :
      Value.decode bytes = .ok v ∧ Value.decode v.encode.toUTF8 = .ok v :=
    ⟨h, (canonical.1 bytes v h nofun).2.1⟩
  have hr {text : String} (h : decode .boundaries text = .ok r) :
      decode .boundaries text = .ok r ∧ decode .boundaries r.encode = .ok r :=
    ⟨h, (canonical.2 .boundaries text r h nofun).2⟩
  refine ⟨hv ?_, hr ?_⟩
  · rw [Value.decode, Text.glyphs_toUTF8]
    dsimp only [v]
    cbv
  · dsimp only [r]
    cbv

end Marginalia
