/-!
# Whole numbers in decimal digits

A whole number is written in its fewest digits and read from any non-empty run of the digits `0` to
`9`, leading zeros included. What is written is read back.
-/

namespace ShopFloor.Text

/-- The whole number that a digit stands for. -/
def digitValue (c : Char) : Nat := c.toNat - '0'.toNat

/-- The whole number that a run of digits stands for, most significant digit first. -/
def digitsValue (digits : List Char) : Nat :=
  digits.foldl (fun value digit => 10 * value + digitValue digit) 0

/-- The digits of a whole number, without leading zeros. -/
def digitsOf (n : Nat) : List Char := Nat.toDigits 10 n

/-- A whole number read from a non-empty run of digits. -/
def readDigits? (cs : List Char) : Option Nat :=
  if cs.isEmpty || !cs.all Char.isDigit then none else some (digitsValue cs)

/-- Reading is appended to: one more digit multiplies by ten and adds. -/
theorem digitsValue_concat (digits : List Char) (digit : Char) :
    digitsValue (digits ++ [digit]) = 10 * digitsValue digits + digitValue digit := by
  simp [digitsValue]

/-- The value of the digits of a number is the number. -/
theorem digitsValue_digitsOf (n : Nat) : digitsValue (digitsOf n) = n := by
  induction n using Nat.strongRecOn with
  | ind n ih =>
    by_cases h : n < 10
    · rw [digitsOf, Nat.toDigits_of_lt_base h]
      simp only [digitsValue, digitValue, List.foldl_cons, List.foldl_nil, Nat.mul_zero,
        Nat.zero_add, Nat.toNat_digitChar_of_lt_ten h]
      exact Nat.add_sub_cancel_left 48 n
    · have hp := Nat.toDigits_append_toDigits (b := 10) (n := n / 10) (d := n % 10) (by decide)
        (by omega) (Nat.mod_lt _ (by decide))
      have he : 10 * (n / 10) + n % 10 = n := by omega
      rw [he] at hp
      rw [digitsOf, ← hp, Nat.toDigits_of_lt_base (Nat.mod_lt _ (by decide)), digitsValue_concat]
      have hi := ih (n / 10) (by omega)
      rw [digitsOf] at hi
      rw [hi, digitValue, Nat.toNat_digitChar_of_lt_ten (Nat.mod_lt _ (by decide))]
      rw [show '0'.toNat = 48 from rfl, Nat.add_sub_cancel_left]
      exact he

/-- A whole number has digits, and they are digits. -/
theorem digitsOf_spec (n : Nat) : (∀ c ∈ digitsOf n, c.isDigit = true) ∧ digitsOf n ≠ [] :=
  ⟨fun _ hc => Nat.isDigit_of_mem_toDigits (by decide) (by decide) hc, Nat.toDigits_ne_nil⟩

/-- A whole number is read back from its digits. -/
theorem readDigits?_digitsOf (n : Nat) : readDigits? (digitsOf n) = some n := by
  have hsome : (digitsOf n).isEmpty = false := List.isEmpty_eq_false_iff.mpr (digitsOf_spec n).2
  have hdigits : (digitsOf n).all Char.isDigit = true := List.all_eq_true.mpr (digitsOf_spec n).1
  rw [readDigits?, hsome, hdigits, digitsValue_digitsOf]
  rfl

/-- The text of a whole number. -/
def natText (n : Nat) : String := String.ofList (digitsOf n)

/-- The text of an integer, with a sign only before a negative one. -/
def intText (n : Int) : String :=
  if n < 0 then "-" ++ natText n.natAbs else natText n.natAbs

end ShopFloor.Text
