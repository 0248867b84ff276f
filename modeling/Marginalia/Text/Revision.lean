/-!
# Text — revisions and fingerprints

Every edit of a document makes a new revision. A `Fingerprint` says which revision a document was
at, and keeps a digest of its text, so that an answer computed for one state of it can be told from
one for another. Which `Digest` that is does not matter here: two texts may well share one, and
what has to be told apart is told apart by the revisions.
-/

namespace Marginalia

/-- How many edits a document has seen. -/
structure Revision where
  number : Nat
deriving DecidableEq, Repr, Inhabited

namespace Revision

/-- The revision of a document that has not been edited. -/
def initial : Revision := ⟨0⟩

def next (r : Revision) : Revision := ⟨r.number + 1⟩

instance : LT Revision := ⟨fun r s => r.number < s.number⟩

instance (r s : Revision) : Decidable (r < s) := inferInstanceAs (Decidable (r.number < s.number))

def text (r : Revision) : String := s!"r{r.number}"

end Revision

/-- A way of digesting texts. -/
abbrev Digest := String → UInt64

/-- A document at one revision, its text as a digest. -/
structure Fingerprint where
  revision : Revision
  digest : UInt64
deriving DecidableEq, Repr

namespace Fingerprint

/-- The fingerprint of a text as it is at a revision. -/
def of (digest : Digest) (revision : Revision) (text : String) : Fingerprint :=
  ⟨revision, digest text⟩

/-- The document is still as it was: same revision and same digest. -/
def agrees (f g : Fingerprint) : Bool := f = g

end Fingerprint

end Marginalia
