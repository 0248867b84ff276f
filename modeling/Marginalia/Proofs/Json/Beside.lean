import Marginalia.Proofs.Json.Spans
import Marginalia.Proofs.Text.Utf8
import Marginalia.Json.Tagged

/-!
# Json — content beside the name of its kind

A text that is a value may stand as content beside the name of a kind, in
an object or an array (`Json.Framed`). There it is read as it is alone
(`Json.Framed.ofText`), and it is decoded as content of the kind
(`Json.Decoder.beside_typeFirst` and those after it).
-/

namespace Marginalia.Json

/-! ## Messages -/

/-- **The messages that have a text beside the name of a kind**: the name
comes before it or after it, or the two make an array. -/
inductive Framed (kind text : String) : String → Prop
  | typeFirst : Framed kind text ("\x7b\"type\":\"" ++ kind ++ "\",\"value\":" ++ text ++ "\x7d")
  | valueFirst : Framed kind text ("\x7b\"value\":" ++ text ++ ",\"type\":\"" ++ kind ++ "\"\x7d")
  | pair : Framed kind text ("[\"" ++ kind ++ "\"," ++ text ++ "]")

/-- What such a message is read as. -/
inductive FramedNode (kind : String) (root : Node) : Node → Prop
  | typeFirst : FramedNode kind root
      (.object [(some "type", .string (some kind)), (some "value", root)] true)
  | valueFirst : FramedNode kind root
      (.object [(some "value", root), (some "type", .string (some kind))] true)
  | pair : FramedNode kind root (.array [.string (some kind), root] true)

namespace Framed

variable {kind text message : String}

/-- A string without escapes is cut into itself. -/
theorem tokens_quoted {s : String} (hs : s.toList.flatMap escapeChar = s.toList)
    (rest : List Char) : tokens (('"' :: s.toList ++ '"' :: rest).map some) =
      .string (some s) :: tokens (rest.map some) := by
  have hwrite := tokens_writeString s rest
  rwa [writeString, hs] at hwrite

/-- **The text is read in its place as it is alone.** -/
theorem ofText (h : Framed kind text message)
    (hkind : kind.toList.flatMap escapeChar = kind.toList)
    (htext : IsValue (Text.glyphsOfText text)) :
    ∃ root, FramedNode kind (Node.ofText (Text.glyphsOfText text)).1 root ∧
      Node.ofText (Text.glyphsOfText message) = (root, true) := by
  have hvalue := htext.spans
  have hname (fuel : Nat) (s : String) : Node.Spans fuel [.string (some s)] (.string (some s)) :=
    .of_flat (by simp) fun fuel _ => by cases fuel <;> rfl
  have htype := tokens_quoted (s := "type") (by decide)
  have hlabel := tokens_quoted (s := "value") (by decide)
  have hcut {rest : List Char} (hend : Delimited (rest.map some)) :
      tokens ((text.toList ++ rest).map some) =
        tokens (Text.glyphsOfText text) ++ tokens (rest.map some) := by
    rw [List.map_append]
    exact tokens_append hvalue.sound hend
  cases h with
  | typeFirst =>
    refine ⟨_, .typeFirst, (Node.Spans.of_members ((hname _ kind).consMember (some "type")
      (hvalue.lastMember (some "value")))).ofText ?_ ?_⟩
    · have hchars : ("\x7b\"type\":\"" ++ kind ++ "\",\"value\":" ++ text ++ "\x7d").toList =
          '\x7b' :: ('"' :: "type".toList ++ '"' :: ':' :: ('"' :: kind.toList ++ '"' :: ',' ::
            ('"' :: "value".toList ++ '"' :: ':' :: (text.toList ++ ['\x7d'])))) := by
        simp
      have hend : Delimited (['\x7d'].map some) := .inr (.inr rfl)
      rw [Text.glyphsOfText, hchars, List.map_cons, tokens_punctuation rfl rfl, htype,
        List.map_cons, tokens_punctuation rfl rfl, tokens_quoted hkind,
        List.map_cons, tokens_punctuation rfl rfl, hlabel,
        List.map_cons, tokens_punctuation rfl rfl, hcut hend]
      rfl
    · simp only [List.length_cons, List.length_append]
      omega
  | valueFirst =>
    refine ⟨_, .valueFirst, (Node.Spans.of_members ((hvalue.mono (Nat.le_succ _)).consMember
      (some "value") ((hname _ kind).lastMember (some "type")))).ofText ?_ ?_⟩
    · have hchars : ("\x7b\"value\":" ++ text ++ ",\"type\":\"" ++ kind ++ "\"\x7d").toList =
          '\x7b' :: ('"' :: "value".toList ++ '"' :: ':' :: (text.toList ++
            ',' :: ('"' :: "type".toList ++ '"' :: ':' :: ('"' :: kind.toList ++
              '"' :: ['\x7d'])))) := by
        simp
      have hend : Delimited ((',' :: ('"' :: "type".toList ++ '"' :: ':' ::
          ('"' :: kind.toList ++ '"' :: ['\x7d']))).map some) := .inl rfl
      rw [Text.glyphsOfText, hchars, List.map_cons, tokens_punctuation rfl rfl, hlabel,
        List.map_cons, tokens_punctuation rfl rfl, hcut hend,
        List.map_cons, tokens_punctuation rfl rfl, htype,
        List.map_cons, tokens_punctuation rfl rfl, tokens_quoted hkind]
      rfl
    · simp only [List.length_cons, List.length_append]
      omega
  | pair =>
    refine ⟨_, .pair, (Node.Spans.of_items ((hname _ kind).cons hvalue.last)).ofText ?_ ?_⟩
    · have hchars : ("[\"" ++ kind ++ "\"," ++ text ++ "]").toList =
          '[' :: ('"' :: kind.toList ++ '"' :: ',' :: (text.toList ++ [']'])) := by
        simp
      have hend : Delimited ([']'].map some) := .inr (.inl rfl)
      rw [Text.glyphsOfText, hchars, List.map_cons, tokens_punctuation rfl rfl,
        tokens_quoted hkind, List.map_cons, tokens_punctuation rfl rfl, hcut hend]
      rfl
    · simp only [List.length_cons, List.length_append]
      omega

end Framed

/-! ## Decoders -/

namespace Decoder

variable {α : Type} {type name : String} {kinds : Kinds α} {d : Decoder α} {held : Bool}
variable {room : Nat}

/-- A value that names its kind first is decoded as of that kind, -/
theorem beside_typeFirst (hkind : kindOf kinds name = .ok (name, .single d)) (root : Node) :
    beside type kinds ⟨room + 1, held⟩
        (.object [(some "type", .string (some name)), (some "value", root)] true) =
      d ⟨room, held⟩ root := by
  have hbeside : besideMembers type kinds ⟨room, held⟩
      [(some "type", .string (some name)), (some "value", root)] =
      Placed.ofResult 1 (d ⟨room, held⟩ root) := by
    simp [besideMembers, findMember, kindName, hkind, besideContent]
  have haround : Fields.around ["type", "value"]
      [(some "type", .string (some name)), (some "value", root)] true = .ok () := by
    simp [Fields.around, Fields.stray]
  simp only [beside, enter, haround, hbeside, bind, Except.bind]
  cases d ⟨room, held⟩ root <;> rfl

/-- and one that names it last is held until then. -/
theorem beside_valueFirst (hkind : kindOf kinds name = .ok (name, .single d)) (root : Node) :
    beside type kinds ⟨room + 1, held⟩
        (.object [(some "value", root), (some "type", .string (some name))] true) =
      (holdAt ⟨room, held⟩ root).bind fun _ => d ⟨room, true⟩ root := by
  have haround : Fields.around ["type", "value"]
      [(some "value", root), (some "type", .string (some name))] true = .ok () := by
    simp [Fields.around, Fields.stray]
  cases hhold : holdAt ⟨room, held⟩ root with
  | error fault =>
    have hbeside : besideMembers type kinds ⟨room, held⟩
        [(some "value", root), (some "type", .string (some name))] = .error (0, fault) := by
      simp [besideMembers, findMember, hhold]
    simp only [beside, enter, haround, hbeside, bind, Except.bind]
    rfl
  | ok u =>
    have hbeside : besideMembers type kinds ⟨room, held⟩
        [(some "value", root), (some "type", .string (some name))] =
        Placed.ofResult 1 (d ⟨room, true⟩ root) := by
      simp [besideMembers, findMember, kindName, hkind, besideContent, hhold, bind, Except.bind]
    simp only [beside, enter, haround, hbeside, bind, Except.bind]
    cases d ⟨room, true⟩ root <;> rfl

/-- So is an array of the two. -/
theorem beside_pair (hkind : kindOf kinds name = .ok (name, .single d)) (root : Node) :
    beside type kinds ⟨room + 1, held⟩ (.array [.string (some name), root] true) =
      d ⟨room, held⟩ root := by
  simp only [beside, enter, itemAt, kindItem, hkind, besideContent, bind, Except.bind,
    List.getElem?_cons_zero, List.getElem?_cons_succ]
  cases d ⟨room, held⟩ root <;> rfl

end Decoder

end Marginalia.Json
