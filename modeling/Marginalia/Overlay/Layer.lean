import Marginalia.Analysis.Body

/-!
# Overlay — layers and decorations

A decoration is an annotation at a place of the text. Decorations come in four layers.
-/

namespace Marginalia

/-- A layer of decorations. -/
inductive Layer where
  /-- Loans and where they are alive. -/
  | loans
  /-- Uses and the permissions on them. -/
  | uses
  /-- Changes at statements. -/
  | statements
  /-- Steps of an execution. -/
  | markers
deriving DecidableEq, Repr, Inhabited

namespace Layer

/-- All layers in their order. -/
def all : List Layer := [loans, uses, statements, markers]

def name : Layer → String
  | loans => "loan-facts"
  | uses => "boundaries"
  | statements => "steps"
  | markers => "interp-markers"

end Layer

/-- What a decoration says. -/
inductive Annotation where
  | loan (key : UInt32) (issuedAt : Span) (refined : List Span)
  | use (u : Use)
  | statement (s : Statement)
  /-- The step at this position executes here. -/
  | marker (position : Nat)
deriving DecidableEq, Repr

/-- A few words for the annotation. -/
def Annotation.label : Annotation → String
  | .loan key _ _ => s!"loan L{key.toNat}"
  | .use u => u.label
  | .statement s => s.label
  | .marker position => s!"L{position + 1}"

/-- An annotation at a place. -/
structure Decoration where
  span : Span
  /-- The position, among the bodies of a reply, of the one that it comes from. -/
  unit : Option Nat
  annotation : Annotation
deriving DecidableEq, Repr

end Marginalia
