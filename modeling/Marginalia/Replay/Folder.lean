/-!
# Replay — files in a folder

A replay reads its files by their paths. A path is followed name by name from the folder that the
replay runs in; at its end there is a text, or one of a few obstacles has come up on the way.
`Folder.read` does this for a folder that is given as a value. Of what lies outside it nothing is
known but that there are folders.
-/

namespace Marginalia.Replay

/-- Why there is no text at a path. -/
inductive Obstacle where
  | missing
  | denied
  /-- The path goes on from something that is no folder. -/
  | notFolder
  /-- The path ends at a folder. -/
  | folder
  | nameTooLong
  /-- The bytes of the file are no text. -/
  | notText
  | other (reason : String)
deriving DecidableEq, Repr

def Obstacle.message : Obstacle → String
  | missing => "No such file or directory (os error 2)"
  | denied => "Permission denied (os error 13)"
  | notFolder => "Not a directory (os error 20)"
  | folder => "Is a directory (os error 21)"
  | nameTooLong => "File name too long (os error 36)"
  | notText => "stream did not contain valid UTF-8"
  | other reason => reason

/-- A folder with all the texts in it and in the folders inside, each by the names that lead to
it. -/
structure Folder where
  files : List (List String × String)
deriving DecidableEq, Repr

namespace Folder

/-- The names that a path goes through. An empty name or a dot leads nowhere else. -/
def names (path : String) : List String :=
  (path.splitOn "/").filter fun name => name ≠ "" && name ≠ "."

/-- A folder from the paths and texts of its files. -/
def ofFiles (files : List (String × String)) : Folder :=
  ⟨files.map fun (path, text) => (names path, text)⟩

/-- How many bytes a name may have. -/
def nameLimit : Nat := 255

/-- How many bytes a path may have. -/
def pathLimit : Nat := 4095

/-- The path ends in a slash or a dot, and so can only name a folder. -/
def namesFolder (path : String) : Bool :=
  let last := (path.splitOn "/").getLast?
  last = some "" || last = some "."

/-- Where a name leads from a place. Two dots lead out of the last folder that was entered, and
outwards if there is none. -/
def follow (place : List String) (name : String) : List String :=
  if name = ".." && place.any (· ≠ "..") then place.dropLast else place ++ [name]

/-- There is a folder at a place: something lies below it, or it encloses the folder itself. -/
def isFolder (f : Folder) (place : List String) : Bool :=
  place.all (· = "..") || f.files.any fun file => place.isPrefixOf file.1

/-- The text that is reached from a place, if the path may end at a file. -/
def walk (f : Folder) (mayEndAtFile : Bool) (place : List String) :
    List String → Except Obstacle String
  | [] => .error .folder
  | name :: others =>
    if nameLimit < name.utf8ByteSize then .error .nameTooLong
    else
      let place := follow place name
      match f.files.find? fun file => file.1 = place with
      | some (_, text) =>
        if others.isEmpty && mayEndAtFile then .ok text else .error .notFolder
      | none =>
        if f.isFolder place then f.walk mayEndAtFile place others else .error .missing

/-- The text at a path. -/
def read (f : Folder) (path : String) : Except Obstacle String :=
  if path.isEmpty then .error .missing
  else if pathLimit < path.utf8ByteSize then .error .nameTooLong
  else if path.startsWith "/" then
    .error (if (names path).isEmpty then .folder else .missing)
  else f.walk (!namesFolder path) [] (names path)

end Folder

end Marginalia.Replay
