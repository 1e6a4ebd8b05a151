import Mathlib
import ShopFloor.Proofs.Binary64.Rounding

/-!
# Machine words as floating-point numbers

A whole number of 64 bits becomes a floating-point number that is far from overflow: exactly below
2⁵³ and rounded from there on. So it stays finite when it is scaled by one. Numbers of more bits are
left out. Main statement: `isInf_ofNat_mul_one`.
-/

namespace ShopFloor.Binary64

open Float.Model Float.Model.UnpackedFloat

/-- A positive number with a significand of fifty-three bits and an exponent in range. -/
inductive Normal : UnpackedFloat → Prop where
  /-- The exponent may be neither too low nor too high. -/
  | intro {m : Nat} {e : Int} (hm : m.log2 = 52) (hlow : -1022 ≤ e) (hhigh : e ≤ 971)
    (hpos : 0 < m) : Normal (.finite .positive m e hpos)

/-- A whole number of at most fifty-three bits is such a number. -/
theorem normal_whole {n : Nat} (hn : n ≠ 0) (hlt : n < 2 ^ 53) : Normal (whole .positive n) := by
  have hlog := log2_le hn hlt
  rw [whole, dif_neg hn]
  exact .intro (log2_significand hn hlt) (by omega) (by omega) _

/-- Such a number is read back as packed. -/
theorem Normal.unpack_pack {r : UnpackedFloat} (h : Normal r) :
    (Float.Model.pack r).unpack = r := by
  cases h with
  | intro hm hlow hhigh hpos => exact unpack_pack_finite .positive hm (by omega) hhigh hpos

/-- Such a number times one is itself. -/
theorem Normal.mul_one {r : UnpackedFloat} (h : Normal r) :
    UnpackedFloat.mul .binary64 r (whole .positive 1) = r := by
  have hone : whole .positive 1 = .finite .positive (2 ^ 52) (-52) (Nat.two_pow_pos 52) := rfl
  cases h with
  | intro hm hlow hhigh hpos =>
    rw [hone]
    exact roundWithAccuracy_mul_two_pow hm (by omega) .positive 52 hpos

/-- Of two equal products with powers of two, the one whose factor has fifty-three bits at least has
no larger a power than the other, or the next one. -/
theorem le_succ_of_mul_two_pow {a b i j : Nat} (ha : 2 ^ 52 ≤ a) (hb : b ≤ 2 ^ 53)
    (heq : a * 2 ^ i = b * 2 ^ j) : i ≤ j + 1 := by
  have hpow : 2 ^ (52 + i) ≤ 2 ^ (53 + j) := by
    rw [pow_add, pow_add]
    calc 2 ^ 52 * 2 ^ i ≤ a * 2 ^ i := Nat.mul_le_mul_right _ ha
      _ = b * 2 ^ j := heq
      _ ≤ 2 ^ 53 * 2 ^ j := Nat.mul_le_mul_right _ hb
  have hexponents : 52 + i ≤ 53 + j := (Nat.pow_le_pow_iff_right (by decide)).mp hpow
  omega

/-- A number of more than fifty-three bits and at most 64 is rounded to such a number. -/
theorem normal_roundWithAccuracy {n : Nat} (hlow : 2 ^ 53 ≤ n) (hhigh : n < 2 ^ 64) :
    Normal (roundWithAccuracy .binary64 .positive (n * 2 ^ 53) (-53) .exact) := by
  have hn : n ≠ 0 := by omega
  have hlog : 53 ≤ n.log2 := (Nat.le_log2 hn).mpr hlow
  have hlog' : n.log2 < 64 := (Nat.log2_lt hn).mpr hhigh
  have hm : n * 2 ^ 53 ≠ 0 := Nat.mul_ne_zero hn (by decide)
  have hexcess : excess (scaled (n * 2 ^ 53) (-53)) = n.log2 + 1022 := by
    rw [excess, log2_scaled hm, log2_mul_two_pow hn]
    omega
  obtain ⟨k, f, hpos, hround, hplaced, hvalue⟩ :=
    roundWithAccuracy_eq_nearest .positive hm (e := -53) (by decide) (by rw [hexcess]; omega)
  -- the value lies between two powers of two, and these confine the exponent
  have hleast := le_nearest_excess (x := scaled (n * 2 ^ 53) (-53)) (by rw [hexcess]; omega)
  have hmost := nearest_excess_le (scaled (n * 2 ^ 53) (-53))
  have hlowest := hplaced.lowest
  have habove := le_succ_of_mul_two_pow hleast hplaced.bound.le hvalue.symm
  have hlong : 2 ^ 52 ≤ k := hplaced.full.resolve_left (by omega)
  have hbelow := le_succ_of_mul_two_pow hlong hmost hvalue
  rw [hround]
  exact .intro (le_antisymm (log2_le hpos.ne' hplaced.bound)
    ((Nat.le_log2 hpos.ne').mpr hlong)) (by omega) (by omega) hpos

/-- A number of 64 bits is converted to such a number. -/
theorem normal_ofNat {n : Nat} (hn : n ≠ 0) (hlt : n < 2 ^ 64) :
    Normal (Float.ofNat n).toModel.unpack := by
  by_cases hshort : n < 2 ^ 53
  · rw [unpack_ofNat hshort]
    exact normal_whole hn hshort
  · have hslow : Float.ofNat n = .ofModel (Float.Model.ofScientific n 0) := by
      show Float.ofScientific n false 0 = _
      rw [Float.ofScientific, dif_neg (fun h => hshort h.1)]
      rfl
    have hround : UnpackedFloat.ofScientific .binary64 n 0 =
        roundWithAccuracy .binary64 .positive (n * 2 ^ 53) (-53) .exact := by
      have hbits : (2 : Int) ^ Format.binary64.exponentBits = 2048 := rfl
      rw [UnpackedFloat.ofScientific, dif_neg hn, hbits, if_neg (by decide), if_neg (by omega),
        if_pos le_rfl]
      show roundWithAccuracy .binary64 .positive (n <<< 53 * 1) (-53) .exact = _
      rw [Nat.shiftLeft_eq, mul_one]
    have hnormal := normal_roundWithAccuracy (Nat.not_lt.mp hshort) hlt
    rw [hslow]
    show Normal (Float.Model.pack (UnpackedFloat.ofScientific .binary64 n 0)).unpack
    rw [hround, hnormal.unpack_pack]
    exact hnormal

/-- Scaling a number of 64 bits by one leaves it finite. -/
theorem isInf_ofNat_mul_one {n : Nat} (hlt : n < 2 ^ 64) :
    (Float.ofNat n * Float.ofNat 1).isInf = false := by
  by_cases hn : n = 0
  · subst hn
    decide +kernel
  · have hnormal := normal_ofNat hn hlt
    have hone : (Float.ofNat 1).toModel.unpack = whole .positive 1 := unpack_ofNat (by decide)
    show (Float.Model.pack (UnpackedFloat.mul .binary64 (Float.ofNat n).toModel.unpack
      (Float.ofNat 1).toModel.unpack)).unpack.isInf = false
    rw [hone, hnormal.mul_one, hnormal.unpack_pack]
    generalize (Float.ofNat n).toModel.unpack = r at hnormal
    cases hnormal
    rfl

end ShopFloor.Binary64
