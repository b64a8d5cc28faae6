/-!
# Double-precision numbers

A finite double-precision number is a whole number of units of `2 ^ (-1074)`, the least positive
number of the format, with a sign.  Its significand has at most 53 bits, so a number of `u` units is
a multiple of `gap u`.  All arithmetic here is exact arithmetic on natural numbers; rounding happens
in one place, `nearest`.
-/

namespace StackListing

/-- A double-precision number.  Finite numbers count units of `2 ^ (-1074)`, and zero has a sign. -/
inductive Binary64 where
  | nan
  | infinite (negative : Bool)
  | finite (negative : Bool) (units : Nat)
deriving DecidableEq

namespace Binary64

/-- The number of units that make one. -/
def unitsPerOne : Nat := Nat.pow 2 1074

/-- The number of units from which on a number is too large to be finite. -/
def limit : Nat := Nat.pow 2 1024 * unitsPerOne

/-- The distance, in units, from a number of `u` units to its neighbour away from zero. -/
def gap (u : Nat) : Nat := Nat.pow 2 (u.log2 - 52)

/-- The number of units nearest to `num / den` units; of two at the same distance, the one with the
even significand. -/
def nearest (num den : Nat) : Nat :=
  let step := gap (num / den)
  let whole := num / (den * step)
  let rest := num % (den * step)
  let up := den * step < 2 * rest ∨ (2 * rest = den * step ∧ whole % 2 = 1)
  (if up then whole + 1 else whole) * step

/-- The finite number of `units` units, or infinity if they are too many. -/
def ofUnits (negative : Bool) (units : Nat) : Binary64 :=
  if units < limit then finite negative units else infinite negative

/-- **The number nearest to `digits * 10 ^ exponent`.**  A value from `10 ^ 310` on is infinite and
one below `10 ^ (-330)` is zero, so that no large power is computed for it. -/
def ofDecimal (negative : Bool) (digits : Nat) (exponent : Int) : Binary64 :=
  let magnitude := (Nat.toDigits 10 digits).length + exponent
  if digits = 0 ∨ magnitude < -330 then finite negative 0
  else if 310 < magnitude then infinite negative
  else if 0 ≤ exponent then
    ofUnits negative (nearest (digits * Nat.pow 10 exponent.toNat * unitsPerOne) 1)
  else
    ofUnits negative (nearest (digits * unitsPerOne) (Nat.pow 10 (-exponent).toNat))

/-- The least and the greatest integer that the machine takes as an immediate operand. -/
def immediateMin : Int := -9223372036854775808

@[inherit_doc immediateMin]
def immediateMax : Int := 9223372036854775807

/-- The number without its fraction, kept within the range of immediate operands. -/
def truncate : Binary64 → Int
  | nan => 0
  | infinite negative => if negative then immediateMin else immediateMax
  | finite negative units =>
    let whole : Int := (units / unitsPerOne : Nat)
    max immediateMin (min immediateMax (if negative then -whole else whole))

end Binary64

end StackListing
