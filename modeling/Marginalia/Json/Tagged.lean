import Marginalia.Json.Fields

/-!
# Json — values that name their kind

Three ways in which a message says which of several kinds a value is of.

A *beside* value is an object with the name of its kind in `type` and what belongs to it in
`value`, in either order; or an array of the two. An *inside* value is an object with the name in
`type` among the fields that belong to it, or an array that starts with the name. A *result* is an
object with the single key `Ok` or `Err`.

Content that comes before the name of its kind is held until the name is known.
-/

namespace Marginalia.Json

/-- What belongs to one kind of value. -/
inductive Content (α : Type) where
  /-- Nothing. -/
  | bare (a : α)
  /-- One value. -/
  | single (d : Decoder α)
  /-- A record written as an object only, or among the fields beside the name. Where the title is
  given, complaints call the kind by it and not by its name. -/
  | record (title : Option String) (f : Fields α)

/-- A record that goes by the name of its kind. -/
def Content.fields (f : Fields α) : Content α := .record none f

/-- A record that goes by a title. -/
def Content.titled (title : String) (f : Fields α) : Content α := .record (some title) f

/-- The kinds of a value in order, by name. -/
abbrev Kinds (α : Type) := List (String × Content α)

namespace Decoder

/-- The kind of this name. -/
def kindOf (kinds : List (String × γ)) (name : String) : Except Fault (String × γ) :=
  match kinds.find? fun kind => kind.1 = name with
  | some kind => .ok kind
  | none => .error (.mismatch (.unknownVariant name (kinds.map Prod.fst)))

/-- The name of a kind where it stands as an item: a string, or the index of the kind if the value
is held. -/
def kindItem (kinds : List (String × γ)) (p : Place) (node : Node) :
    Except Fault (String × γ) :=
  match node with
  | .string (some name) => kindOf kinds name
  | .number n =>
    match p.held, n.whole? with
    | true, some k =>
      if k < 0 then .error (wrongType "variant identifier" node)
      else match kinds[k.toNat]? with
        | some kind => .ok kind
        | none =>
          .error (.mismatch (.wrongValue (.whole k) s!"variant index 0 <= i < {kinds.length}"))
    | _, _ => .error (wrongType "variant identifier" node)
  | node => .error (wrongType "variant identifier" node)

/-- What must stand beside the name of a kind that is written as a key: nothing. -/
def nothingBeside (p : Place) : Node → Except Fault Unit
  | .null => .ok ()
  | .object [] true => if p.held then .ok () else .error (wrongType "unit" (.object [] true))
  | node => .error (wrongType "unit" node)

/-- The name of a kind where it stands by itself: a string, or the only key of an object whose
value is `null`. -/
def kindName (kinds : List (String × γ)) (p : Place) (node : Node) :
    Except Fault (String × γ) :=
  match node with
  | .string (some name) => kindOf kinds name
  | .string none | .broken => .error .unreadable
  | .object members closed =>
    if p.held then
      match members with
      | [(some name, value)] => do
        let kind ← kindOf kinds name
        nothingBeside p value
        pure kind
      | _ => .error (.mismatch (.wrongValue .map "map with a single key"))
    else do
      let p ← enter p
      match members with
      | (some name, value) :: others =>
        let kind ← kindOf kinds name
        nothingBeside p value
        if others.isEmpty && closed then pure kind else .error .misshapen
      | (none, .misplaced found) :: _ => .error (wrongType "variant identifier" found)
      | (none, _) :: _ => .error .unreadable
      | [] => .error .misshapen
  | node => .error (if p.held then wrongType "string or map" node else .misshapen)

/-- A value that is no more than the name of its kind. -/
def choice (kinds : List (String × α)) : Decoder α := fun p node =>
  (kindName kinds p node).map Prod.snd

/-! ## Beside -/

/-- What complaints call the record of a kind. -/
def recordTitle (type name : String) (title : Option String) : String :=
  "struct variant " ++ type ++ "::" ++ title.getD name

/-- The content that stands beside the name of its kind. -/
def besideContent (type name : String) : Content α → Decoder α
  | .bare a, _, .null => .ok a
  | .bare _, p, node => .error (wrongTypeInside (s!"unit variant {type}::{name}") p node)
  | .single d, p, node => d p node
  | .record _ f, p, .object members closed => do
    let p ← enter p
    f.ofObject p members closed
  | .record title _, p, node =>
    .error (wrongTypeInside (recordTitle type name title) p node)

/-- The content of a kind, when none was given. -/
def besideNothing : Content α → Except Fault α
  | .bare a => .ok a
  | _ => .error (.missing "value")

/-- A *beside* value from the members of an object. -/
def besideMembers (type : String) (kinds : Kinds α) (p : Place) (members : List Member) :
    Placed α :=
  let ended := members.length + 1
  match findMember "type" members, findMember "value" members with
  | none, none => .error (ended, .missing "type")
  | none, some (i, node) =>
    match holdAt p node with
    | .error fault => .error (i, fault)
    | .ok () => .error (ended, .missing "type")
  | some (i, tag), none =>
    match kindName kinds p tag with
    | .error fault => .error (i, fault)
    | .ok (_, content) => Placed.ofResult ended (besideNothing content)
  | some (i, tag), some (j, node) =>
    if i < j then
      match kindName kinds p tag with
      | .error fault => .error (i, fault)
      | .ok (name, content) => Placed.ofResult j (besideContent type name content p node)
    else
      match holdAt p node with
      | .error fault => .error (j, fault)
      | .ok () => Placed.ofResult i do
        let (name, content) ← kindName kinds p tag
        besideContent type name content { p with held := true } node

/-- A value with the name of its kind beside its content. -/
def beside (type : String) (kinds : Kinds α) : Decoder α
  | p, .array items closed => do
    let wanted := "adjacently tagged enum " ++ type
    let p ← enter p
    let (name, content) ← itemAt (kindItem kinds) p items closed 0 wanted
    let a ← itemAt (besideContent type name content) p items closed 1 wanted
    finish p items closed 2
    pure a
  | p, .object members closed => do
    let p ← enter p
    let around := Fields.around ["type", "value"] members closed
    (Placed.both (around.map fun _ a => a) (besideMembers type kinds p members)).result
  | _, node => .error (wrongType ("adjacently tagged enum " ++ type) node)

/-- Two items in an array, as the content of the kind `name`. -/
def besidePair (type name : String) (d : Decoder α) (e : Decoder β) : Decoder (α × β) :=
  let what := s!"tuple variant {type}::{name}"
  pairOf what (what ++ " with 2 elements") d e

/-! ## Inside -/

/-- The members that are not the name of the kind. -/
def withoutType (members : List Member) : List Member :=
  members.filter fun m => m.1 ≠ some "type"

/-- Reads the members of an object as a whole, the name of the kind where it comes by. -/
def insideMembers (kinds : Kinds α) (p : Place) (kind : Option (String × Content α)) :
    List Member → Except Fault (Option (String × Content α))
  | [] => .ok kind
  | (none, _) :: _ => .error .unreadable
  | (some key, value) :: members =>
    if key = "type" then
      match kind with
      | some _ => .error (.mismatch (.duplicateField "type"))
      | none => do
        let kind ← kindItem kinds p value
        insideMembers kinds p (some kind) members
    else do
      holdAt p value
      insideMembers kinds p kind members

/-- The fields of a kind from the items after its name. -/
def insideItems (type name : String) (content : Content α) (p inner : Place) (items : List Node) :
    Except Fault α :=
  match content with
  | .bare a => do
    finish inner items true 0
    pure a
  | .single d => d p (.array items true)
  | .record title f => f.ofArray (recordTitle type name title) inner items true

/-- A value with the name of its kind among its fields. -/
def inside (type : String) (kinds : Kinds α) : Decoder α
  | p, .array items closed => do
    let inner ← enter p
    match items with
    | [] => .error (if closed then .missing "type" else .unreadable)
    | tag :: items =>
      let (name, content) ← kindItem kinds inner tag
      holdItems inner.room items
      if !closed then .error .unreadable
      else insideItems type name content { p with held := true } { inner with held := true } items
  | p, .object members closed => do
    let inner ← enter p
    let kind ← insideMembers kinds inner none members
    if !closed then .error .unreadable
    else match kind with
      | none => .error (.missing "type")
      | some (_, .bare a) => .ok a
      | some (_, .single d) => d { p with held := true } (.object (withoutType members) true)
      | some (_, .record _ f) =>
        f.ofObject { inner with held := true } (withoutType members) true
  | _, node => .error (wrongType ("internally tagged enum " ++ type) node)

/-! ## Results -/

/-- A success under `Ok`, or a failure under `Err`. -/
def result (ok : Decoder α) (err : Decoder ε) : Decoder (Except ε α) := fun p node =>
  let names := ["Ok", "Err"]
  match node with
  | .string (some s) =>
    if names.contains s then .error (.mismatch (.wrongType .bareVariant "newtype variant"))
    else .error (.mismatch (.unknownVariant s names))
  | .string none | .broken => .error .unreadable
  | .object members closed => do
    let p ← enter p
    match members with
    | [] => .error .misshapen
    | (none, .misplaced found) :: _ => .error (wrongType "`Ok` or `Err`" found)
    | (none, _) :: _ => .error .unreadable
    | (some key, value) :: others =>
      let r ←
        if key = "Ok" then (ok p value).map Except.ok
        else if key = "Err" then (err p value).map Except.error
        else .error (.mismatch (.unknownVariant key names))
      if others.isEmpty && closed then pure r else .error .misshapen
  | _ => .error .misshapen

end Decoder

end Marginalia.Json
