import ShopFloor.Text.Decimal

/-!
# Shortest decimals of floating-point numbers

A 64-bit floating-point number stands for every real number that rounds to it; these form an
interval, with its ends when the significand is even. Of the decimals in the interval one with the
fewest digits is taken, and of those the nearest to the number itself, an even last digit deciding
a tie. All of it is exact arithmetic on whole numbers.
-/

namespace ShopFloor.Binary64

/-- The number of patterns of the fifty-two bits of a fraction. -/
def fractions : Nat := 0x10000000000000

/-- The number of patterns of the eleven bits of an exponent. -/
def exponents : Nat := 0x800

/-- The sign bit of a pattern. -/
def signBit : Nat := 0x8000000000000000

/-- A positive number and the ends of the interval that rounds to it, over one denominator. -/
structure Neighbourhood where
  /-- The numerator of the lower end. -/
  low : Nat
  /-- The numerator of the number. -/
  value : Nat
  /-- The numerator of the upper end. -/
  high : Nat
  /-- The common denominator. -/
  denominator : Nat
  /-- Whether the ends round to the number as well. -/
  withEnds : Bool
  deriving DecidableEq, Repr

namespace Neighbourhood

/-- The neighbourhood of the positive finite number with a 64-bit pattern. Its unit is a quarter of
the distance to the next number above; the next one below is half as far when the significand is a
power of two. -/
def ofBits (bits : Nat) : Neighbourhood :=
  let exponent := bits / fractions % exponents
  let fraction := bits % fractions
  let significand := if exponent = 0 then fraction else fractions + fraction
  let below := if fraction = 0 ∧ 1 < exponent then 1 else 2
  let up := Nat.pow 2 (max exponent 1 - 1077)
  let down := Nat.pow 2 (1077 - max exponent 1)
  ⟨(4 * significand - below) * up, 4 * significand * up, (4 * significand + 2) * up, down,
    significand % 2 = 0⟩

/-- The neighbourhood in units of a power of ten. -/
def inUnits (n : Neighbourhood) (exponent : Int) : Neighbourhood :=
  let factor := Nat.pow 10 (-exponent).toNat
  { n with
    low := n.low * factor
    value := n.value * factor
    high := n.high * factor
    denominator := n.denominator * Nat.pow 10 exponent.toNat }

/-- Whether a whole number lies in a neighbourhood. -/
def holds (n : Neighbourhood) (k : Nat) : Bool :=
  let scaled := k * n.denominator
  (n.low < scaled && scaled < n.high) || (n.withEnds && (n.low == scaled || scaled == n.high))

/-- The whole number of a neighbourhood that is nearest to its middle, if one of the two next to it
is inside. -/
def nearest? (n : Neighbourhood) : Option Nat :=
  let floor := n.value / n.denominator
  let remainder := n.value % n.denominator
  match n.holds floor, n.holds (floor + 1) with
  | true, true =>
    if 2 * remainder < n.denominator then some floor
    else if n.denominator < 2 * remainder then some (floor + 1)
    else some (if floor % 2 = 0 then floor else floor + 1)
  | true, false => some floor
  | false, true => some (floor + 1)
  | false, false => none

/-- The whole number found lies in the neighbourhood. -/
theorem holds_of_nearest? {n : Neighbourhood} {k : Nat} (h : n.nearest? = some k) :
    n.holds k = true := by
  unfold nearest? at h
  grind

/-- The exponent of the least power of ten above the number. -/
def magnitude (n : Neighbourhood) : Int :=
  if n.denominator ≤ n.value then (Text.digitsOf (n.value / n.denominator)).length
  else
    let inverse := (n.denominator + n.value - 1) / n.value
    1 - (Text.digitsOf (inverse - 1)).length

/-- The decimal of fewest digits: a whole number and the power of ten that it is multiplied by. -/
def shortest (n : Neighbourhood) : Nat × Int :=
  let top := n.magnitude
  ((List.range 17).findSome? fun (digits : Nat) =>
    let exponent : Int := top - (digits + 1)
    (n.inUnits exponent).nearest?.map fun k => (k, exponent)).getD (0, 0)

end Neighbourhood

/-- Whether a number has the sign bit set. -/
def isNegative (x : Float) : Bool := signBit ≤ x.toBits.toNat

/-- The decimal of fewest digits for the magnitude of a finite number: digits, and where the decimal
point stands, counted from before the first digit. Zero has one digit, before the point. -/
def shortestDigits (x : Float) : List Char × Int :=
  let bits := x.toBits.toNat % signBit
  if bits = 0 then (['0'], 1)
  else
    let (k, exponent) := (Neighbourhood.ofBits bits).shortest
    let digits := Text.digitsOf k
    let significant := (digits.reverse.dropWhile (· == '0')).reverse
    (significant, digits.length + exponent)

end ShopFloor.Binary64
