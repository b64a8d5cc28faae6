import StackListing.Number.Binary64

/-!
# Reading numbers

Integers have an optional sign and decimal digits, and fit in 32 bits.  Floats have an optional
sign, digits with an optional point before, between or behind them, and an optional exponent; the
words `inf`, `infinity` and `nan` are floats in any case of letters.  Nothing else may stand in the
text.
-/

namespace StackListing.Number

/-- The value of decimal digits. -/
def value (digits : List Char) : Nat := digits.foldl (fun n c => 10 * n + (c.toNat - 48)) 0

/-- Whether the text begins with a minus sign, and the text behind its sign. -/
def sign : List Char → Bool × List Char
  | '-' :: cs => (true, cs)
  | '+' :: cs => (false, cs)
  | cs => (false, cs)

/-- The least and the greatest integer of the language. -/
def integerMin : Int := -2147483648

@[inherit_doc integerMin]
def integerMax : Int := 2147483647

/-- The whole number that a text writes: an optional sign and at least one digit. -/
def whole? (cs : List Char) : Option Int :=
  let (negative, digits) := sign cs
  if digits ≠ [] ∧ digits.all Char.isDigit then
    some (if negative then -(value digits : Int) else value digits)
  else none

/-- **The integer that a text writes,** if it is in range. -/
def readInteger? (text : String) : Option Int :=
  (whole? text.toList).filter fun n => integerMin ≤ n ∧ n ≤ integerMax

/-- The exponent that stands behind the digits of a float; without one it is zero. -/
def exponent? : List Char → Option Int
  | [] => some 0
  | e :: cs => if e = 'e' ∨ e = 'E' then whole? cs else none

/-- The float that unsigned digits write. -/
def decimal? (negative : Bool) (cs : List Char) : Option Binary64 :=
  let before := cs.takeWhile Char.isDigit
  let (after, rest) := match cs.dropWhile Char.isDigit with
    | '.' :: ds => (ds.takeWhile Char.isDigit, ds.dropWhile Char.isDigit)
    | ds => ([], ds)
  if before = [] ∧ after = [] then none
  else (exponent? rest).map fun e =>
    Binary64.ofDecimal negative (value (before ++ after)) (e - after.length)

/-- **The float that a text writes.** -/
def readFloat? (text : String) : Option Binary64 :=
  let (negative, cs) := sign text.toList
  let word := cs.map Char.toLower
  if word = "inf".toList ∨ word = "infinity".toList then some (.infinite negative)
  else if word = "nan".toList then some .nan
  else decimal? negative cs

end StackListing.Number
