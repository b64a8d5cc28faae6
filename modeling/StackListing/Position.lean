/-!
# Positions in a source text

A position is a line and a column, both counted from one.  A position with a negative part is not a
place in a text: it stands for "nowhere", as for complaints about values that no source wrote.
Columns count characters, and a line ends with its newline character.

Lines and columns are unbounded numbers here.  Sources shorter than `2 ^ 31` characters are meant,
in which both stay within the range of signed numbers of 32 bits.
-/

namespace StackListing

/-- A line and a column, both counted from one. -/
structure Position where
  line : Int
  column : Int
deriving DecidableEq

namespace Position

/-- The place of the first character of a text. -/
def start : Position := ⟨1, 1⟩

/-- The position of something that stands in no text. -/
def unknown : Position := ⟨-1, -1⟩

/-- Whether the position can be shown: neither part is negative. -/
def isKnown (p : Position) : Bool := 0 ≤ p.line && 0 ≤ p.column

/-- The position as `line:column`. -/
def text (p : Position) : String := toString p.line ++ ":" ++ toString p.column

/-- The place behind the character `c` at `p`. -/
def next (p : Position) (c : Char) : Position :=
  if c = '\n' then ⟨p.line + 1, 1⟩ else ⟨p.line, p.column + 1⟩

/-- The place behind the characters `cs` that stand at `p`. -/
def advance (p : Position) (cs : List Char) : Position := cs.foldl next p

@[simp] theorem advance_nil (p : Position) : p.advance [] = p := rfl

@[simp] theorem advance_cons (p : Position) (c : Char) (cs : List Char) :
    p.advance (c :: cs) = (p.next c).advance cs := rfl

@[simp] theorem advance_append (p : Position) (cs ds : List Char) :
    p.advance (cs ++ ds) = (p.advance cs).advance ds := by
  simp [advance, List.foldl_append]

end Position

end StackListing
