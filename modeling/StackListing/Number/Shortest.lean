import StackListing.Number.Binary64

/-!
# The shortest decimal text of a number

A number is written with the fewest digits that read back as the same number.  The reals that round
to a number form an interval around it; its text is taken from the coarsest grid of multiples of a
power of ten that has a point in that interval.  Lengths are measured in half units, so that the
ends of the interval are whole numbers.
-/

namespace StackListing.Binary64

/-- The lower end, in half units, of the interval of reals that round to `u` units.  Below a power
of two the neighbour is nearer. -/
def lowerEnd (u : Nat) : Nat :=
  2 * u - (if 1 < gap u ∧ u = Nat.pow 2 u.log2 then gap u / 2 else gap u)

/-- The upper end, in half units, of the interval of reals that round to `u` units. -/
def upperEnd (u : Nat) : Nat := 2 * u + gap u

/-- Whether the ends themselves round to `u` units: they do if the significand is even. -/
def endsIncluded (u : Nat) : Bool := (u / gap u) % 2 = 0

/-- The ratio of `10 ^ k` to half a unit, as a numerator and a denominator. -/
def gridStep (k : Int) : Nat × Nat :=
  if 0 ≤ k then (Nat.pow 10 k.toNat * (2 * unitsPerOne), 1)
  else (2 * unitsPerOne, Nat.pow 10 (-k).toNat)

/-- Whether `d * 10 ^ k` rounds to `u` units. -/
def readsBack (u d : Nat) (k : Int) : Bool :=
  let (num, den) := gridStep k
  if endsIncluded u then lowerEnd u * den ≤ d * num && d * num ≤ upperEnd u * den
  else lowerEnd u * den < d * num && d * num < upperEnd u * den

/-- A multiple of `10 ^ k` that rounds to `u` units.  Only the two multiples around the number can;
the nearer is taken, and the greater when they are equally near. -/
def onGrid? (u : Nat) (k : Int) : Option Nat :=
  let (num, den) := gridStep k
  let d := 2 * u * den / num
  match readsBack u d k, readsBack u (d + 1) k with
  | true, true => some (if 2 * u * den - d * num < (d + 1) * num - 2 * u * den then d else d + 1)
  | true, false => some d
  | false, true => some (d + 1)
  | false, false => none

/-- The powers of ten of the grids, the coarsest first. -/
def gridPowers : List Int := (List.range 634).map fun i : Nat => 309 - (i : Int)

/-- **The shortest digits of `u` units:** a number `d` and a power `k` such that `d * 10 ^ k` reads
back, with `k` as great as possible. -/
def shortest (u : Nat) : Nat × Int :=
  (gridPowers.findSome? fun k => (onGrid? u k).map fun d => (d, k)).getD (0, 0)

/-- A decimal number in positional or, when it is very small or very large, in exponent form.  There
is always a digit on both sides of a point. -/
def layout (digits : List Char) (power : Int) : List Char :=
  let scale : Int := digits.length + power
  if scale - 1 < -4 ∨ 16 ≤ scale - 1 then
    let fraction := if digits.length ≤ 1 then [] else '.' :: digits.tail
    digits.take 1 ++ fraction ++ 'e' :: (toString (scale - 1)).toList
  else if scale ≤ 0 then
    '0' :: '.' :: List.replicate (-scale).toNat '0' ++ digits
  else if scale < digits.length then
    digits.take scale.toNat ++ '.' :: digits.drop scale.toNat
  else
    digits ++ List.replicate power.toNat '0' ++ ['.', '0']

/-- The text of a number without its sign. -/
def magnitudeText (u : Nat) : String :=
  if u = 0 then "0.0"
  else
    let (d, k) := shortest u
    String.ofList (layout (Nat.toDigits 10 d) k)

/-- **The text of a number.** -/
def text : Binary64 → String
  | nan => "NaN"
  | infinite negative => if negative then "-inf" else "inf"
  | finite negative u => (if negative then "-" else "") ++ magnitudeText u

end StackListing.Binary64
