import Marginalia.Json.Tagged
import Marginalia.Json.Tree

/-!
# State — paths

A `Path` names a place in the state of a program at one step: a local of a stack frame or a heap
cell, and from there fields, elements and stretches of elements. Two pointers with the same path
point at the same place.
-/

namespace Marginalia

/-- Where a path starts. Frame 0 is the outermost. -/
inductive Root where
  | stack (frame : Nat) (name : String)
  | heap (index : Nat)
deriving DecidableEq, Repr, Inhabited

/-- One step of a path. -/
inductive Part where
  /-- A field of a struct or enum, by position. -/
  | field (n : Nat)
  /-- An element of an array, or a code unit of a string. -/
  | index (n : Nat)
  /-- The elements from `start` up to, and without, `stop`. -/
  | slice (start stop : Nat)
deriving DecidableEq, Repr, Inhabited

/-- A place in the state of a program. -/
structure Path where
  root : Root
  parts : List Part
deriving DecidableEq, Repr, Inhabited

namespace Path

def stack (frame : Nat) (name : String) : Path := ⟨.stack frame name, []⟩

def heap (index : Nat) : Path := ⟨.heap index, []⟩

/-- One step further. -/
def push (p : Path) (part : Part) : Path := { p with parts := p.parts ++ [part] }

def field (p : Path) (n : Nat) : Path := p.push (.field n)

def index (p : Path) (n : Nat) : Path := p.push (.index n)

def slice (p : Path) (start stop : Nat) : Path := p.push (.slice start stop)

def isHeap (p : Path) : Bool :=
  match p.root with
  | .heap _ => true
  | .stack _ _ => false

/-- `p` is `q` or leads on from it. -/
def startsWith (p q : Path) : Bool := p.root = q.root && q.parts.isPrefixOf p.parts

end Path

/-! ## As text -/

def Root.text : Root → String
  | .stack frame name => s!"{name}@{frame}"
  | .heap index => s!"heap#{index}"

def Part.text : Part → String
  | .field n => s!".{n}"
  | .index n => s!"[{n}]"
  | .slice start stop => s!"[{start}..{stop}]"

def Path.text (p : Path) : String := p.root.text ++ String.join (p.parts.map Part.text)

/-! ## As a message -/

namespace Root

def toJson : Root → Json
  | .stack frame name =>
    .tagged "Stack" (.object [("frame", .ofNat frame), ("local", .string name)])
  | .heap index => .tagged "Heap" (.object [("index", .ofNat index)])

def decoder : Json.Decoder Root :=
  .beside "PathRoot"
    [("Stack", .fields (stack <$> .required "frame" .size <*> .required "local" .string)),
      ("Heap", .fields (heap <$> .required "index" .size))]

end Root

namespace Part

def toJson : Part → Json
  | .field n => .tagged "Field" (.ofNat n)
  | .index n => .tagged "Index" (.ofNat n)
  | .slice start stop => .tagged "Subslice" (.array [.ofNat start, .ofNat stop])

def decoder : Json.Decoder Part :=
  .beside "PathPart"
    [("Field", .single (.map field .size)),
      ("Index", .single (.map index .size)),
      ("Subslice", .single
        (.map (fun (start, stop) => slice start stop)
          (.besidePair "PathPart" "Subslice" .size .size)))]

end Part

namespace Path

def toJson (p : Path) : Json :=
  .object [("segment", p.root.toJson), ("parts", .list Part.toJson p.parts)]

def decoder : Json.Decoder Path :=
  .record "Path" (Path.mk <$> .required "segment" Root.decoder <*>
    .required "parts" (.list Part.decoder))

end Path

end Marginalia
