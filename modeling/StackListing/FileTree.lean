import StackListing.Path

/-!
# File trees

A file tree is what there is around the working directory: the directories that were made and the
files, each under its place.  The working directory and all above it are always there.  Paths are
followed part by part.  A file is read or written where a path leads, if nothing is left of the path
behind the file's name.
-/

namespace StackListing

/-- Why a file cannot be read or written. -/
inductive FileFault where
  | missing
  | notADirectory
  | isADirectory
  | nameTooLong
  | notText
  | other (description : String)
deriving DecidableEq

/-- The fault in words. -/
def FileFault.message : FileFault → String
  | missing => "No such file or directory (os error 2)"
  | notADirectory => "Not a directory (os error 20)"
  | isADirectory => "Is a directory (os error 21)"
  | nameTooLong => "File name too long (os error 36)"
  | notText => "stream did not contain valid UTF-8"
  | other description => description

/-- What a file holds: a text, or bytes that are no text. -/
inductive Content where
  | text (s : String)
  | binary (bytes : List UInt8)
deriving DecidableEq

/-- The content that bytes make up. -/
def Content.ofBytes (bytes : List UInt8) : Content :=
  match String.fromUTF8? ⟨bytes.toArray⟩ with
  | some s => text s
  | none => binary bytes

/-- The directories and the files around the working directory, by their places. -/
structure FileTree where
  directories : List (List String)
  files : List (List String × Content)
deriving DecidableEq

namespace FileTree

/-- The tree without files. -/
def empty : FileTree := ⟨[], []⟩

/-- What the file at a place holds. -/
def get? (tree : FileTree) (place : List String) : Option Content := tree.files.lookup place

/-- Whether there is a directory at a place. -/
def isDirectory (tree : FileTree) (place : List String) : Bool :=
  Path.isAbove place || tree.directories.contains place

/-- The tree in which the file at a place holds `content`. -/
def put (tree : FileTree) (place : List String) (content : Content) : FileTree :=
  if (tree.get? place).isSome then
    { tree with files := tree.files.map fun (p, old) => (p, if p = place then content else old) }
  else { tree with files := tree.files ++ [(place, content)] }

/-- The tree in which a path holds `content`.  The parts of the path before the last are made
directories. -/
def plant (tree : FileTree) (content : Content) : List String → List String → FileTree
  | _, [] => tree
  | place, [part] => tree.put (Path.enter place part) content
  | place, part :: rest =>
    plant { tree with directories := tree.directories ++ [Path.enter place part] } content
      (Path.enter place part) rest

/-- The tree of files whose paths are given with slashes.  Of two paths to one file the later one
says what the file holds. -/
def ofList (files : List (String × Content)) : FileTree :=
  files.foldl (fun tree (path, content) =>
    tree.plant content (Path.origin path) (Path.parts path)) empty

/-- Where a path leads. -/
inductive Place where
  | directory
  /-- A file, and the parts of the path behind its name. -/
  | file (place : List String) (content : Content) (rest : List String)
  /-- The first place at which there is nothing, and the parts of the path behind it. -/
  | absent (place rest : List String)
deriving DecidableEq

/-- Follows parts from a directory. -/
def follow (tree : FileTree) : List String → List String → Place
  | _, [] => .directory
  | dir, part :: rest =>
    let place := Path.enter dir part
    if part = "" ∨ part = "." ∨ part = ".." then tree.follow place rest
    else match tree.get? place with
      | some content => .file place content rest
      | none => if tree.isDirectory place then tree.follow place rest else .absent place rest

/-- The most bytes that a name may have. -/
def nameLimit : Nat := 255

/-- The most bytes that a path may have. -/
def pathLimit : Nat := 4095

/-- Where a path leads.  The empty path leads nowhere. -/
def locate (tree : FileTree) (path : String) : Except FileFault Place :=
  if path = "" then .error .missing
  else if pathLimit < path.utf8ByteSize then .error .nameTooLong
  else .ok (tree.follow (Path.origin path) (Path.parts path))

/-- Whether a name of a place is longer than names may be. -/
def isOverlong (place : List String) : Bool := place.any fun name => nameLimit < name.utf8ByteSize

/-- Why there is nothing at a place. -/
def absence (place : List String) : FileFault :=
  if isOverlong place then .nameTooLong else .missing

/-- **The text of a file.** -/
def read (tree : FileTree) (path : String) : Except FileFault String := do
  match ← tree.locate path with
  | .file _ (.text s) [] => .ok s
  | .file _ (.binary _) [] => .error .notText
  | .file _ _ (_ :: _) => .error .notADirectory
  | .directory => .error .isADirectory
  | .absent place _ => .error (absence place)

/-- The fault of writing to a path that has more parts behind a name at which there is no directory.
Slashes alone ask for a directory; other parts need one. -/
def overrun (rest : List String) (f : FileFault) : FileFault :=
  if rest.all (· = "") then .isADirectory else f

/-- **The tree with a text written to a file.**  A file that does not exist is made, if the
directory for it exists. -/
def write (tree : FileTree) (path text : String) : Except FileFault FileTree := do
  match ← tree.locate path with
  | .file place _ [] => .ok (tree.put place (.text text))
  | .file _ _ rest => .error (overrun rest .notADirectory)
  | .absent place [] =>
    if isOverlong place then .error .nameTooLong else .ok (tree.put place (.text text))
  | .absent place rest => .error (overrun rest (absence place))
  | .directory => .error .isADirectory

/-- The files in the working directory that `before` does not have or has with other content. -/
def changes (before after : FileTree) : List (String × Content) :=
  (after.files.filter fun (place, content) =>
      Path.isInside place && before.get? place ≠ some content).map
    fun (place, content) => ("/".intercalate place, content)

end FileTree

end StackListing
