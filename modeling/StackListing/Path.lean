/-!
# Paths

A path is a text whose parts stand between slashes.  A slash at its end, and a part `.` that is not
the first, name the same thing as the path without them.
-/

namespace StackListing.Path

/-- The pieces of a text between its slashes. -/
def pieces : List Char → List (List Char)
  | [] => [[]]
  | c :: cs =>
    if c = '/' then [] :: pieces cs
    else match pieces cs with
      | [] => [[c]]
      | p :: ps => (c :: p) :: ps

/-- The parts of a path.  A slash at the beginning or the end makes an empty part there. -/
def parts (path : String) : List String := (pieces path.toList).map String.ofList

/-- Whether the path starts at the root of all files. -/
def isAbsolute (path : String) : Bool := path.toList.head? = some '/'

/-! ### Places

A place is a list of names that starts at the working directory.  The places above that directory
start with `..`, once for each step up, and the places under the root start with `/`.  No other name
of a place is `..`, so a place has one list of names. -/

/-- The place where a path starts. -/
def origin (path : String) : List String := if isAbsolute path then ["/"] else []

/-- Whether a place is the root, the working directory or a directory above that. -/
def isAbove (place : List String) : Bool := place = ["/"] || place.all (· = "..")

/-- The directory that a place stands in.  The root stands in itself. -/
def parent (place : List String) : List String :=
  if place = ["/"] then place else if isAbove place then ".." :: place else place.dropLast

/-- Whether a place is in the working directory. -/
def isInside (place : List String) : Bool :=
  place.head? ≠ some ".." && place.head? ≠ some "/"

/-- The place that one part of a path leads to. -/
def enter (place : List String) (part : String) : List String :=
  if part = "" ∨ part = "." then place
  else if part = ".." then parent place
  else place ++ [part]

/-! ### Extensions -/

/-- The text of a path without the slashes and the parts `.` that end it, read from the back. -/
def stripBack : List Char → List Char
  | '/' :: cs => stripBack cs
  | '.' :: '/' :: cs => stripBack cs
  | cs => cs

/-- The text of a path without the slashes and the parts `.` that end it. -/
def strip (path : List Char) : List Char := (stripBack path.reverse).reverse

/-- The name that a path ends in, or nothing if it ends in none: `.` and `..` are not names. -/
def fileName (path : List Char) : List Char :=
  let name := ((strip path).reverse.takeWhile (· ≠ '/')).reverse
  if name = ['.'] ∨ name = ['.', '.'] then [] else name

/-- The last dot of a name and what follows it, or nothing if the name has no dot but one that begins
it. -/
def suffix (name : List Char) : List Char :=
  let tail := name.reverse.takeWhile (· ≠ '.')
  if name.length ≤ tail.length + 1 then [] else '.' :: tail.reverse

/-- A path that ends in a name with that name's suffix replaced; any other path as it is. -/
def replaceSuffix (path new : List Char) : List Char :=
  if fileName path = [] then path
  else (strip path).take ((strip path).length - (suffix (fileName path)).length) ++ new

/-- **The path with another extension.**  As many characters as the old extension has are taken from
the end of the path before the suffix is replaced.  So a name `..x` at the very end becomes `..`,
which is no name and gets no extension. -/
def withExtension (path extension : String) : String :=
  let chars := path.toList
  let old := (suffix (fileName chars)).drop 1
  String.ofList (replaceSuffix (chars.take (chars.length - old.length)) ('.' :: extension.toList))

/-- The path of the listing that belongs to a source: next to it, with another extension. -/
def forListing (source : String) : String := withExtension source "asm"

end StackListing.Path
