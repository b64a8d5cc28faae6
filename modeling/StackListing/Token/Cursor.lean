import StackListing.Position

/-!
# A reading place

A cursor is a place in a source text together with the text from there on.  It moves over texts that
its owner has already recognised: the place moves by the characters of the text, and the rest loses
as many bytes of UTF-8 as the text has.
-/

namespace StackListing

/-- A place in a text and the text from there on. -/
structure Cursor where
  position : Position
  rest : List Char
deriving DecidableEq

namespace Cursor

/-- The cursor at the start of a source. -/
def ofSource (source : String) : Cursor := ⟨Position.start, source.toList⟩

/-- The characters that are left when at least `n` bytes are gone. -/
def dropBytes : Nat → List Char → List Char
  | _, [] => []
  | 0, cs => cs
  | n + 1, c :: cs => dropBytes (n + 1 - c.utf8Size) cs

/-- The cursor behind `text`. -/
def skip (c : Cursor) (text : String) : Cursor :=
  ⟨c.position.advance text.toList, dropBytes text.utf8ByteSize c.rest⟩

/-- Whether nothing is left to read. -/
def atEnd (c : Cursor) : Bool := c.rest.isEmpty

end Cursor

end StackListing
