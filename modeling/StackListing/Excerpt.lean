import StackListing.Diagnostic
import StackListing.Text.Blank

/-!
# Excerpts

An excerpt shows a complaint with the line of source it is about, and under that line a caret at the
place itself.  The spaces and tabs before the line's text are left out, and the caret moves with the
text.  A complaint whose place is not a line of the source is shown without one.
-/

namespace StackListing

/-- The lines of a text.  A newline ends a line; behind the last newline there is a line only if
there are characters. -/
def lines : List Char → List (List Char)
  | [] => []
  | c :: cs =>
    if c = '\n' then [] :: lines cs
    else
      match lines cs with
      | [] => [[c]]
      | l :: ls => (c :: l) :: ls

/-- The line of the source that a position is on, without carriage returns at its end. -/
def lineAt? (source : String) (p : Position) : Option (List Char) :=
  if p.isKnown ∧ p.line ≠ 0 then
    (lines source.toList)[(p.line - 1).toNat]?.map (Text.dropEndWhile (· = '\r'))
  else none

namespace Excerpt

/-- Whether a character indents a line. -/
def isIndent (c : Char) : Bool := c = ' ' || c = '\t'

/-- The characters `cs`, filled up on the left with `c` to the given width. -/
def padLeft (width : Nat) (c : Char) (cs : List Char) : List Char :=
  List.replicate (width - cs.length) c ++ cs

/-- The name of the cause, with its tip. -/
def title (cause : Cause) : String :=
  match cause.tip? with
  | none => "Error: " ++ cause.name ++ "\n"
  | some tip => "Error: " ++ cause.name ++ " (" ++ tip ++ ")\n"

/-- The line `text` of the source and a caret under the column of `p`. -/
def picture (p : Position) (text : List Char) : String :=
  let number := toString p.line
  let gutter := String.ofList (padLeft (number.length + 2) ' ' ['|'])
  let indent := (text.takeWhile isIndent).length
  let shown := Text.dropEndWhile Text.isBlank (text.dropWhile isIndent)
  let caret := padLeft ((max p.column 1).toNat - indent) '-' ['^']
  gutter ++ "\n" ++ number ++ " | " ++ String.ofList shown ++ "\n" ++
    gutter ++ " " ++ String.ofList caret ++ "\n"

end Excerpt

/-- **A complaint about a file, shown with its line.** -/
def Diagnostic.excerpt (d : Diagnostic) (source file : String) : String :=
  match lineAt? source d.position with
  | none => Excerpt.title d.cause ++ "-> " ++ file ++ "\n"
  | some text =>
    Excerpt.title d.cause ++ "-> " ++ file ++ ":" ++ d.position.text ++ "\n" ++
      Excerpt.picture d.position text

end StackListing
