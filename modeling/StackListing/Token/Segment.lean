import StackListing.Token

/-!
# Segments of a source text

A source text is cut into segments, each of which begins where the one before it ends.  A segment
is a token, or a stretch that the language skips, or a character that begins nothing, or a quote
that is never closed together with all that follows it.  The cut at a place depends only on the
text from there on.

What a segment is follows the documented meaning of the patterns by which the language defines its
words.  A pattern is anchored: it is matched at the place itself and not further on.  It is greedy:
a repetition in it takes as many characters as it can.  And its classes of letters and digits are
those of ASCII.
-/

namespace StackListing

/-- What a segment of the source is. -/
inductive SegmentClass where
  /-- A word of the language. -/
  | token (kind : Kind)
  /-- Spaces, tabs and carriage returns, or a comment. -/
  | skipped
  /-- A character with which no word begins. -/
  | stray (character : Char)
  /-- A quote without a partner, and the rest of the text. -/
  | unclosed
deriving DecidableEq

/-- A stretch of source text and what it is. -/
structure Segment where
  cls : SegmentClass
  text : List Char
deriving DecidableEq

namespace Segment

/-- Whether a word can begin with the character. -/
def isLetter (c : Char) : Bool := c.isAlpha || c = '_'

/-- Whether a word can go on with the character. -/
def isWordChar (c : Char) : Bool := c.isAlphanum || c = '_'

/-- Whether the character separates words without being one. -/
def isSpace (c : Char) : Bool := c = ' ' || c = '\t' || c = '\r'

/-- The words made of punctuation, each before those it begins with. -/
def marks : List (List Char × Kind) :=
  [(['['], .openBracket), ([']'], .closeBracket), (['\x7b'], .openCurly), (['\x7d'], .closeCurly),
    (['('], .openParen), ([')'], .closeParen), (['=', '='], .equal), (['!', '='], .notEqual),
    (['!'], .bang), (['='], .assign), (['<', '='], .lessEqual), (['<'], .less),
    (['>', '='], .greaterEqual), (['>'], .greater), (['|', '|'], .barBar), (['&', '&'], .ampAmp),
    ([';'], .semicolon), ([','], .comma), (['+'], .plus), (['-'], .dash), (['/'], .slash),
    (['*'], .star), (['%'], .percent)]

/-- The word that begins with the letter `c`. -/
def word (c : Char) (cs : List Char) : Segment :=
  let text := c :: cs.takeWhile isWordChar
  ⟨.token (Kind.ofWord (String.ofList text)), text⟩

/-- The number that begins with the digit `c`: a point belongs to it when a digit follows. -/
def number (c : Char) (cs : List Char) : Segment :=
  let whole := c :: cs.takeWhile Char.isDigit
  match cs.dropWhile Char.isDigit with
  | '.' :: d :: ds =>
    if d.isDigit then ⟨.token .floatLiteral, whole ++ '.' :: d :: ds.takeWhile Char.isDigit⟩
    else ⟨.token .integerLiteral, whole⟩
  | _ => ⟨.token .integerLiteral, whole⟩

/-- The string literal behind an opening quote; without a closing quote it is unclosed. -/
def string (cs : List Char) : Segment :=
  if cs.contains '"' then ⟨.token .stringLiteral, '"' :: cs.takeWhile (· ≠ '"') ++ ['"']⟩
  else ⟨.unclosed, '"' :: cs⟩

/-- The punctuation that begins with `c`, if there is any. -/
def mark (c : Char) (cs : List Char) : Segment :=
  match marks.find? (·.1.isPrefixOf (c :: cs)) with
  | some (text, kind) => ⟨.token kind, text⟩
  | none => ⟨.stray c, [c]⟩

/-- The segment that begins with `c`, where `cs` follows. -/
def first (c : Char) (cs : List Char) : Segment :=
  if isLetter c then word c cs
  else if c.isDigit then number c cs
  else if c = '\n' then ⟨.token .newline, [c]⟩
  else if isSpace c then ⟨.skipped, c :: cs.takeWhile isSpace⟩
  else if c = '"' then string cs
  else if c = '/' ∧ cs.head? = some '/' then ⟨.skipped, c :: cs.takeWhile (· ≠ '\n')⟩
  else mark c cs

/-- **The cut of a text into segments.** -/
def split : List Char → List Segment
  | [] => []
  | c :: cs => first c cs :: split (cs.drop ((first c cs).text.length - 1))
termination_by cs => cs.length
decreasing_by
  simp only [List.length_drop, List.length_cons]
  omega

@[simp] theorem split_nil : split [] = [] := by rw [split]

theorem split_cons (c : Char) (cs : List Char) :
    split (c :: cs) = first c cs :: split (cs.drop ((first c cs).text.length - 1)) := by
  rw [split]

/-- The text of the token that a segment is: a string literal goes without its quotes. -/
def value (s : Segment) : String :=
  String.ofList <| match s.cls with
    | .token .stringLiteral => s.text.tail.dropLast
    | _ => s.text

end Segment

end StackListing
