import StackListing.Instruction

/-!
# Listings

A listing is a list of lines.  Instructions and comments are indented, labels and directives are
not.  The comment behind an instruction stands in a fixed column, unless the instruction is longer.
-/

namespace StackListing

/-- A line of a listing. -/
inductive Line where
  | code (instruction : Instruction) (comment : Option String)
  | label (l : Label)
  /-- The entry of a function, under its name. -/
  | entry (name : String)
  | comment (text : String)
  /-- A directive or any other text at the margin. -/
  | raw (text : String)
  | blank
deriving DecidableEq

namespace Line

/-- The width in which an instruction with a comment is written. -/
def commentColumn : Nat := 15

/-- A text filled up with spaces to a width. -/
def padded (width : Nat) (s : String) : String :=
  s ++ String.ofList (List.replicate (width - s.length) ' ')

/-- A line as it stands in a listing. -/
def text : Line → String
  | code instruction none => "    " ++ instruction.text
  | code instruction (some remark) =>
    "    " ++ padded commentColumn instruction.text ++ " ; " ++ remark
  | label l => l.text ++ ":"
  | entry name => name ++ ":"
  | comment remark => "    ; " ++ remark
  | raw s => s
  | blank => ""

/-- A line of code without a comment. -/
def plain (i : Instruction) : Line := code i none

/-- A line of code with a comment. -/
def noted (i : Instruction) (remark : String) : Line := code i (some remark)

end Line

/-- The lines of a listing. -/
abbrev Listing := List Line

/-- The text of a listing, each line followed by a newline. -/
def Listing.text (lines : Listing) : String := String.join (lines.map (·.text ++ "\n"))

end StackListing
