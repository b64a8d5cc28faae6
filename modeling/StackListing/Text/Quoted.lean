import StackListing.Text.Hidden

/-!
# Quoted text

A text is quoted between double quotes.  A quote and a backslash get a backslash before them, the
characters NUL, tab, carriage return and newline have short names, and a hidden character is written
by its number in hexadecimal.
-/

namespace StackListing.Text

/-- The number of a character in lower-case hexadecimal, as in `\u{1b}`. -/
def numbered (c : Char) : List Char :=
  ['\\', 'u', '\x7b'] ++ Nat.toDigits 16 c.toNat ++ ['\x7d']

/-- A character as it stands inside quotes. -/
def quotedChar (c : Char) : List Char :=
  if c = '\x00' then ['\\', '0']
  else if c = '\t' then ['\\', 't']
  else if c = '\r' then ['\\', 'r']
  else if c = '\n' then ['\\', 'n']
  else if c = '"' then ['\\', '"']
  else if c = '\\' then ['\\', '\\']
  else if isHidden c then numbered c
  else [c]

/-- A text between quotes. -/
def quoted (s : String) : String :=
  "\"" ++ String.ofList (s.toList.flatMap quotedChar) ++ "\""

end StackListing.Text
