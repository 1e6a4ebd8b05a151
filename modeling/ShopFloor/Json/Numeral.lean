import ShopFloor.Binary64.Shortest

/-!
# Numbers in JSON

A number is kept as it is written: sign, whole part, digits after the point, and exponent. It
stands for an integer only if it is written as one, and a negative zero is none. A floating-point
value is read by taking as many digits as fit into 64 bits and scaling once by a power of ten; a
value too large is refused. It is written with the fewest digits: positionally from `1e-5` up to
`1e16`, with at least one digit after the point, and beyond with an exponent that always has a sign.
-/

namespace ShopFloor.Json

/-- A number as it is written. -/
structure Numeral where
  /-- Whether there is a minus sign. -/
  negative : Bool
  /-- The part before the point. -/
  whole : Nat
  /-- The digits after the point, none without a point. -/
  fraction : List Char
  /-- The exponent, if one is written. -/
  exponent : Option Int
  deriving DecidableEq, Repr

namespace Numeral

/-- The number that is written as an integer. -/
def ofInt (n : Int) : Numeral := ⟨n < 0, n.natAbs, [], none⟩

/-- The integer that a number is written as. -/
def toInt? (n : Numeral) : Option Int :=
  if n.fraction.isEmpty && n.exponent.isNone && !(n.negative && n.whole = 0) then
    some (if n.negative then -n.whole else n.whole)
  else none

/-- An integer that is written is read back. -/
theorem toInt?_ofInt (n : Int) : (ofInt n).toInt? = some n := by
  have hzero : (decide (n < 0) && decide (n.natAbs = 0)) = false := by
    rw [Bool.and_eq_false_iff, decide_eq_false_iff_not, decide_eq_false_iff_not]
    omega
  rw [ofInt, toInt?, hzero]
  refine congrArg some ?_
  show (if decide (n < 0) = true then -(n.natAbs : Int) else (n.natAbs : Int)) = n
  by_cases h : n < 0
  · rw [if_pos (decide_eq_true h)]
    omega
  · rw [if_neg (by rw [decide_eq_true_eq]; exact h)]
    omega

/-- The characters of an exponent, which has a plus sign where it has no minus sign. -/
def renderExponent (e : Int) : List Char :=
  'e' :: (if e < 0 then '-' else '+') :: Text.digitsOf e.natAbs

/-- The characters of a number. -/
def render (n : Numeral) : List Char :=
  (if n.negative then ['-'] else []) ++ Text.digitsOf n.whole
    ++ (if n.fraction.isEmpty then [] else '.' :: n.fraction)
    ++ (match n.exponent with
      | none => []
      | some e => renderExponent e)

/-- The least whole number that 64 bits cannot hold. -/
def wordBound : Nat := 0x10000000000000000

/-- A run of digits taken up as long as 64 bits hold their value, and the digits left over. -/
def takeDigits (value : Nat) : List Char → Nat × List Char
  | [] => (value, [])
  | digit :: rest =>
    let next := 10 * value + Text.digitValue digit
    if next < wordBound then takeDigits next rest else (value, digit :: rest)

/-- A power of ten up to the largest that is finite. -/
def powerOfTen (n : Nat) : Float := Float.ofScientific 1 false n

/-- A value divided by a power of ten, in steps of the largest power that is finite. -/
def scaleDown (value : Float) (power : Nat) : Float :=
  if power ≤ 308 then value / powerOfTen power
  else if value == 0 then value
  else scaleDown (value / powerOfTen 308) (power - 308)
termination_by power

/-- A value multiplied by a power of ten, unless that is too large. -/
def scaleUp? (value : Float) (power : Nat) : Option Float :=
  if power ≤ 308 then
    let scaled := value * powerOfTen power
    if scaled.isInf then none else some scaled
  else if value == 0 then some value
  else none

/-- The magnitude of the floating-point value of a number, unless it is too large. -/
def magnitude? (n : Numeral) : Option Float :=
  let (whole, left) := takeDigits 0 (Text.digitsOf n.whole)
  let (digits, dropped) := takeDigits whole n.fraction
  let taken := n.fraction.length - dropped.length
  let power := n.exponent.getD 0 + left.length - taken
  let value := Float.ofNat digits
  if 0 ≤ power then scaleUp? value power.toNat else some (scaleDown value (-power).toNat)

/-- The floating-point value of a number, unless it is too large. -/
def toFloat? (n : Numeral) : Option Float :=
  n.magnitude?.map fun value => if n.negative then -value else value

/-- The digits of a decimal laid out: the first ones before the point, the others after it. -/
def ofDigits (negative : Bool) (digits : List Char) (point : Int) : Numeral :=
  if 0 < point ∧ point ≤ 16 then
    let before := digits ++ List.replicate (point.toNat - digits.length) '0'
    let after := digits.drop point.toNat
    ⟨negative, Text.digitsValue (before.take point.toNat), if after.isEmpty then ['0'] else after,
      none⟩
  else if -5 < point ∧ point ≤ 0 then
    ⟨negative, 0, List.replicate (-point).toNat '0' ++ digits, none⟩
  else ⟨negative, Text.digitsValue (digits.take 1), digits.drop 1, some (point - 1)⟩

/-- The number that a finite floating-point value is written as. -/
def ofFloat (x : Float) : Numeral :=
  let (digits, point) := Binary64.shortestDigits x
  ofDigits (Binary64.isNegative x) digits point

end Numeral

end ShopFloor.Json
