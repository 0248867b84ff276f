import Marginalia.Proofs.Text.History
import Marginalia.Proofs.Overlay.Store

/-!
# Overlay — decorations stay on their text

Decorations come at the places of a revision that may be over. A layer
that is filled with them shows each where its text is now, or shows
nothing at all (`Document.Edited.layer_replaceAll`): one decoration whose
text was touched is enough to give up the others.
-/

namespace Marginalia

/-- **A decoration that has moved with its text** and is the same
otherwise. -/
structure Decoration.Follows (old : Document) (entry : Decoration) (new : Document)
    (d : Decoration) : Prop where
  unit : d.unit = entry.unit
  annotation : d.annotation = entry.annotation
  carries : old.Carries entry.span new d.span

namespace Document

variable {text : String} {old new : Document} {earlier later : List Edit}

/-- A span that is looked up has moved with its text. -/
theorem Edited.carries_of_map? (hold : Edited (ofText text) earlier old)
    (hnew : Edited old later new) {span r : Span} (hspan : span.fits old.length = true)
    (hr : new.map? span old.revision = some r) : Carries old span new r := by
  rw [hold.logs.revision, (hold.trans hnew).logs.map?_eq] at hr
  split at hr
  · exact hnew.carries (hold.counted (counted_ofText text)) hspan hr
  · cases hr

/-- A layer that is filled shows its decorations on their text, or
nothing. -/
theorem Edited.layer_replaceAll (hold : Edited (ofText text) earlier old)
    (hnew : Edited old later new) (s : Store) (l : Layer) {entries : List Decoration}
    (hentries : ∀ entry ∈ entries, entry.span.fits old.length = true) :
    (s.replaceAll l entries old.revision new.map?).1.layer l = [] ∨
      List.Forall₂ (fun entry d => Decoration.Follows old entry new d) entries
        ((s.replaceAll l entries old.revision new.map?).1.layer l) := by
  unfold Store.replaceAll
  split
  · rename_i moved hmoved
    rw [Store.layer_change]
    refine Or.inr (forall₂_of_moveAll ?_ hmoved)
    intro entry hentry span hspan
    exact ⟨rfl, rfl, hold.carries_of_map? hnew (hentries entry hentry) hspan⟩
  · rw [Store.layer_change]
    exact Or.inl rfl

/-- **What is looked up lies on the text it was taken for**, whatever was
edited since: a span that is found covers the very characters it covered,
and a layer that is filled shows its decorations on theirs, or
nothing. -/
theorem Edited.keeps_text (hold : Edited (ofText text) earlier old)
    (hnew : Edited old later new) :
    (∀ span r, span.fits old.length = true → new.map? span old.revision = some r →
      Carries old span new r) ∧
    ∀ (s : Store) (l : Layer) (entries : List Decoration),
      (∀ entry ∈ entries, entry.span.fits old.length = true) →
      (s.replaceAll l entries old.revision new.map?).1.layer l = [] ∨
        List.Forall₂ (fun entry d => Decoration.Follows old entry new d) entries
          ((s.replaceAll l entries old.revision new.map?).1.layer l) :=
  ⟨fun _ _ hspan hr => hold.carries_of_map? hnew hspan hr,
    fun s l _ hentries => hold.layer_replaceAll hnew s l hentries⟩

/-- A call is found behind a word that was put right in front of it and
before which another was cut away, and its marker is shown there. -/
theorem keeps_text_of_call :
    ∃ old new : Document, Edited (ofText "f(x); g(y)") [.insert 0 "let "] old ∧
      Edited old [.delete ⟨4, 6⟩, .insert 10 "mut "] new ∧
      (Span.fits ⟨10, 14⟩ old.length = true ∧
        new.map? ⟨10, 14⟩ old.revision = some ⟨12, 16⟩ ∧
        Carries old ⟨10, 14⟩ new ⟨12, 16⟩) ∧
      ((Store.initial.replaceAll .markers [⟨⟨10, 14⟩, none, .marker 0⟩] old.revision
          new.map?).1.layer .markers = [] ∨
        List.Forall₂ (fun entry d => Decoration.Follows old entry new d)
          [⟨⟨10, 14⟩, none, .marker 0⟩]
          ((Store.initial.replaceAll .markers [⟨⟨10, 14⟩, none, .marker 0⟩] old.revision
            new.map?).1.layer .markers)) := by
  have hold : Edited (ofText "f(x); g(y)") [.insert 0 "let "]
      ⟨"let f(x); g(y)", 14, ⟨1⟩, [(⟨1⟩, .insert 0 "let ")]⟩ :=
    .edit (.refl (by decide +kernel)) (by decide +kernel) (by decide)
  have hinserted : Edited _ [.insert 10 "mut "]
      ⟨"let f(x); mut g(y)", 18, ⟨2⟩, [(⟨2⟩, .insert 10 "mut "), (⟨1⟩, .insert 0 "let ")]⟩ :=
    .edit (.refl hold.held) (by decide +kernel) (by decide)
  have hnew : Edited _ [.delete ⟨4, 6⟩, .insert 10 "mut "]
      ⟨"let x); mut g(y)", 16, ⟨3⟩,
        [(⟨3⟩, .delete ⟨4, 6⟩), (⟨2⟩, .insert 10 "mut "), (⟨1⟩, .insert 0 "let ")]⟩ :=
    .edit hinserted (by decide +kernel) (by decide)
  obtain ⟨hspans, hlayers⟩ := hold.keeps_text hnew
  have hfits : Span.fits ⟨10, 14⟩ 14 = true := by decide
  refine ⟨_, _, hold, hnew, ⟨hfits, ?found, hspans _ _ hfits ?found⟩,
    hlayers _ _ _ fun entry hentry => List.mem_singleton.mp hentry ▸ hfits⟩
  decide +kernel

end Document

end Marginalia
