import Mathlib
import ShopFloor.Proofs.Binary64.Whole

/-!
# Rounding of differences

Every finite 64-bit floating-point number is a whole multiple of 2⁻¹⁰⁷⁴, its unit. A difference of
two of them is exact in units and is then rounded to fifty-three bits. So it exceeds a number with
an odd significand exactly when the exact difference reaches the middle between that number and the
next one above. Numbers that overflow count as large. Main statements: `round_eq_nearest`,
`isNearest_sub`, `lt_abs_sub_iff`, `lt_iff_units`.
-/

namespace ShopFloor.Binary64

open Float.Model Float.Model.UnpackedFloat

/-- The form of a finite number: a significand of fifty-three bits, fewer only at the lowest
exponent. -/
structure Placed (m : Nat) (e : Int) : Prop where
  /-- The exponent is not below the lowest one. -/
  lowest : -1074 ≤ e
  /-- The significand has at most fifty-three bits. -/
  bound : m < 2 ^ 53
  /-- The significand is as long as can be. -/
  full : e = -1074 ∨ 2 ^ 52 ≤ m

/-- The value of a significand and an exponent in units. -/
def scaled (m : Nat) (e : Int) : Nat := m * 2 ^ (e + 1074).toNat

/-- The value of a number in units. What is no finite number counts as zero. -/
def units : UnpackedFloat → Int
  | .finite s m e _ => s.apply (scaled m e)
  | _ => 0

section Comparison

/-- A number with the higher exponent is larger. -/
theorem scaled_lt_of_lt {m n : Nat} {e f : Int} (hm : Placed m e) (hn : Placed n f) (h : e < f) :
    scaled m e < scaled n f := by
  have hlow := hm.lowest
  have hn := hn.full.resolve_left (by omega)
  obtain ⟨k, hk⟩ : ∃ k, (f + 1074).toNat = (e + 1074).toNat + 1 + k :=
    ⟨(f - e).toNat - 1, by omega⟩
  calc scaled m e < 2 ^ 53 * 2 ^ (e + 1074).toNat :=
        Nat.mul_lt_mul_of_pos_right hm.bound (Nat.two_pow_pos _)
    _ = 2 ^ 52 * 2 ^ ((e + 1074).toNat + 1) := by ring
    _ ≤ n * 2 ^ (f + 1074).toNat :=
        Nat.mul_le_mul hn (Nat.pow_le_pow_right (by decide) (by omega))

/-- Exponents and then significands compare as the values do. -/
theorem compare_scaled {m n : Nat} {e f : Int} (hm : Placed m e) (hn : Placed n f) :
    (compare e f).then (compare m n) = compare (scaled m e) (scaled n f) := by
  rcases lt_trichotomy e f with hlt | rfl | hgt
  · rw [compare_lt_iff_lt.mpr hlt, compare_lt_iff_lt.mpr (scaled_lt_of_lt hm hn hlt)]
    rfl
  · rw [compare_eq_iff_eq.mpr rfl]
    show compareOfLessAndEq _ _ = compareOfLessAndEq _ _
    simp only [compareOfLessAndEq, scaled, Nat.mul_lt_mul_right (Nat.two_pow_pos _),
      Nat.mul_left_inj (Nat.two_pow_pos _).ne']
  · rw [compare_gt_iff_gt.mpr hgt, compare_gt_iff_gt.mpr (scaled_lt_of_lt hn hm hgt)]
    rfl

/-- A number is zero, or finite in its form. -/
inductive Settled : UnpackedFloat → Prop where
  /-- Zero of either sign. -/
  | zero (s : Sign) : Settled (.zero s)
  /-- A number in its form. -/
  | finite (s : Sign) {m : Nat} {e : Int} (h : Placed m e) (hpos : 0 < m) :
    Settled (.finite s m e hpos)

/-- The value of a finite number is positive before its sign. -/
theorem scaled_pos {m : Nat} (e : Int) (hpos : 0 < m) : 0 < scaled m e :=
  Nat.mul_pos hpos (Nat.two_pow_pos _)

/-- Numbers are in order as their values are. -/
theorem compare_eq_lt_iff {a b : UnpackedFloat} (ha : Settled a) (hb : Settled b) :
    a.compare b = some .lt ↔ units a < units b := by
  cases ha with
  | zero s =>
    cases hb with
    | zero t => simp [UnpackedFloat.compare, units]
    | @finite t n f hn hpos =>
      have := scaled_pos f hpos
      cases t <;> simp [UnpackedFloat.compare, units, Sign.apply]
      omega
  | @finite s m e hm hpos =>
    have := scaled_pos e hpos
    cases hb with
    | zero t =>
      cases s <;> simp [UnpackedFloat.compare, units, Sign.apply]
      omega
    | @finite t n f hn hpos' =>
      have := scaled_pos f hpos'
      have horder := compare_scaled hm hn
      cases s <;> cases t <;>
        simp only [UnpackedFloat.compare, units, Sign.apply, Option.some.injEq, reduceCtorEq,
          horder, Ordering.swap_eq_lt, compare_gt_iff_gt, compare_lt_iff_lt, true_iff,
          false_iff] <;> omega

end Comparison

section Nearest

/-- A number divided by a power of two: the nearest whole number, and the even one at a tie. -/
def nearest (x t : Nat) : Nat := ((ExtendedMantissa.mk x false false) >>> t).roundedMantissa

/-- A shift keeps the quotient, the bit behind it and whether anything is behind that bit. -/
theorem shiftRight_succ (x t : Nat) :
    (ExtendedMantissa.mk x false false) >>> (t + 1) =
      ⟨x / 2 ^ (t + 1), x / 2 ^ t % 2 != 0, x % 2 ^ t != 0⟩ := by
  show (t + 1).repeat ExtendedMantissa.shiftRightOne _ = _
  induction t with
  | zero => simp [Nat.repeat, ExtendedMantissa.shiftRightOne, Nat.mod_one]
  | succ t ih =>
    have hquotient : x / 2 ^ (t + 1) / 2 = x / 2 ^ (t + 1 + 1) := by
      rw [Nat.div_div_eq_div_mul, ← pow_succ]
    have hbehind : x % 2 ^ (t + 1) = x % 2 ^ t + 2 ^ t * (x / 2 ^ t % 2) := by
      rw [pow_succ, Nat.mod_mul]
    have hsticky : ((x / 2 ^ t % 2 != 0) || (x % 2 ^ t != 0)) = (x % 2 ^ (t + 1) != 0) := by
      rw [hbehind, Bool.eq_iff_iff]
      simp only [Bool.or_eq_true, bne_iff_ne, ne_eq, Nat.add_eq_zero_iff, Nat.mul_eq_zero,
        (Nat.two_pow_pos t).ne', false_or]
      tauto
    rw [Nat.repeat, ih, ExtendedMantissa.shiftRightOne, hquotient, hsticky]

/-- The nearest whole number is the quotient or the next one: that if the bit behind is set and
either something is behind that or the quotient is odd. -/
theorem nearest_succ (x t : Nat) :
    nearest x (t + 1) = x / 2 ^ (t + 1) +
      if x / 2 ^ t % 2 = 1 ∧ (x % 2 ^ t ≠ 0 ∨ x / 2 ^ (t + 1) % 2 = 1) then 1 else 0 := by
  have hbit := Nat.mod_two_eq_zero_or_one (x / 2 ^ t)
  have hodd := Nat.mod_two_eq_zero_or_one (x / 2 ^ (t + 1))
  simp only [nearest, shiftRight_succ, ← bne_iff_ne]
  generalize (x % 2 ^ t != 0) = sticky
  rcases hbit with hbit | hbit <;> rcases hodd with hodd | hodd <;> cases sticky <;>
    simp [hbit, hodd, ExtendedMantissa.roundedMantissa, ExtendedMantissa.accuracy,
      Accuracy.roundToNearestEven]

/-- Nothing is rounded without a shift. -/
@[simp] theorem nearest_zero (x : Nat) : nearest x 0 = x := rfl

/-- The nearest whole number is not below the quotient. -/
theorem div_le_nearest (x t : Nat) : x / 2 ^ t ≤ nearest x t := by
  cases t with
  | zero => simp
  | succ t =>
    rw [nearest_succ]
    exact Nat.le_add_right _ _

/-- The nearest whole number is at most the one after the quotient. -/
theorem nearest_le (x t : Nat) : nearest x t ≤ x / 2 ^ t + 1 := by
  cases t with
  | zero => simp
  | succ t =>
    rw [nearest_succ]
    split <;> omega

/-- Zeros at the end of a number are shifted out without a trace. -/
theorem nearest_mul_two_pow (x j t : Nat) : nearest (x * 2 ^ j) (t + j) = nearest x t := by
  have hsplit : ∀ em : ExtendedMantissa, em >>> (t + j) = (em >>> j) >>> t := by
    intro em
    show (t + j).repeat _ em = t.repeat _ (j.repeat _ em)
    induction t with
    | zero => rw [Nat.zero_add]; rfl
    | succ t ih => rw [Nat.add_right_comm, Nat.repeat, ih]; rfl
  rw [nearest, hsplit, shiftRight_mul_two_pow, nearest]

/-- A number rounds above an odd one exactly if it reaches the middle to the next. -/
theorem lt_nearest_iff {n : Nat} (hn : n % 2 = 1) (x t : Nat) :
    n < nearest x (t + 1) ↔ (2 * n + 1) * 2 ^ t ≤ x := by
  have hhalf : x / 2 ^ (t + 1) = x / 2 ^ t / 2 := by
    rw [Nat.div_div_eq_div_mul, ← pow_succ]
  rw [← Nat.le_div_iff_mul_le (Nat.two_pow_pos t), nearest_succ, hhalf]
  split <;> omega

end Nearest

section Rounding

/-- How many bits of a number are behind the first fifty-three. -/
def excess (x : Nat) : Nat := x.log2 - 52

/-- A number has the bits of its significand and those behind. -/
theorem lt_two_pow_excess (x : Nat) : x < 2 ^ (53 + excess x) :=
  Nat.lt_log2_self.trans_le (Nat.pow_le_pow_right (by decide) (by rw [excess]; omega))

/-- A number with bits behind its significand is long. -/
theorem two_pow_excess_le {x : Nat} (h : excess x ≠ 0) : 2 ^ (52 + excess x) ≤ x := by
  rw [excess] at h ⊢
  have hne : x ≠ 0 := by
    rintro rfl
    exact h rfl
  rw [show 52 + (x.log2 - 52) = x.log2 by omega]
  exact Nat.log2_self_le hne

/-- The rounded significand of a number has fifty-three bits, or is the next power of two. -/
theorem nearest_excess_le (x : Nat) : nearest x (excess x) ≤ 2 ^ 53 := by
  have hlt : x / 2 ^ excess x < 2 ^ 53 := by
    rw [Nat.div_lt_iff_lt_mul (Nat.two_pow_pos _), ← pow_add]
    exact lt_two_pow_excess x
  have := nearest_le x (excess x)
  omega

/-- The rounded significand of a number with bits behind it has no fewer than fifty-three bits. -/
theorem le_nearest_excess {x : Nat} (h : excess x ≠ 0) : 2 ^ 52 ≤ nearest x (excess x) := by
  refine le_trans ?_ (div_le_nearest x (excess x))
  rw [Nat.le_div_iff_mul_le (Nat.two_pow_pos _), ← pow_add]
  exact two_pow_excess_le h

/-- A number in units has the bits of its significand and the zeros behind. -/
theorem log2_scaled {m : Nat} (hm : m ≠ 0) (e : Int) :
    (scaled m e).log2 = m.log2 + (e + 1074).toNat := log2_mul_two_pow hm _

/-- The exponent at which fifty-three bits of a number are left. -/
theorem targetExponent_eq {m : Nat} (hm : m ≠ 0) {e : Int} (he : -1074 ≤ e) :
    Format.binary64.targetExponent (totalExponent m e) = excess (scaled m e) - 1074 := by
  rw [excess, log2_scaled hm]
  simp only [totalExponent, Format.targetExponent, Format.mantissaBits, Format.minExponent]
  omega

/-- A shift to the place of a number keeps the bits that are asked for. -/
theorem shiftToTargetExponent_eq {m : Nat} (hm : m ≠ 0) {e : Int} (he : -1074 ≤ e) {d : Nat}
    (hd : (excess (scaled m e) - 1074 - e : Int) = d) :
    shiftToTargetExponent .binary64 m e .exact =
      (ExtendedMantissa.mk m false false >>> d, (excess (scaled m e) - 1074 : Int)) := by
  rw [shiftToTargetExponent, targetExponent_eq hm he, shiftToExponent, hd, Int.toNat_natCast]
  exact Prod.ext rfl (by show e + d = _; omega)

/-- A rounded significand is put in its form: only a power of two that is too long is shifted. -/
theorem exists_placed {r t : Nat} (hpos : 0 < r) (hle : r ≤ 2 ^ 53)
    (hfull : t = 0 ∨ 2 ^ 52 ≤ r) :
    ∃ n f, (shiftToTargetExponent .binary64 r (t - 1074) .exact).1.mantissa = n ∧
      (shiftToTargetExponent .binary64 r (t - 1074) .exact).2 = f ∧ 0 < n ∧ Placed n f ∧
      scaled n f = r * 2 ^ t := by
  have hscaled : scaled r (t - 1074) = r * 2 ^ t := by rw [scaled]; congr 2; omega
  have hexcess : excess (scaled r (t - 1074)) = r.log2 + t - 52 := by
    rw [hscaled, excess, log2_mul_two_pow hpos.ne']
  rcases hle.lt_or_eq with hlt | rfl
  · have hlog : r.log2 ≤ 52 := log2_le hpos.ne' hlt
    have hplace : t = 0 ∨ r.log2 = 52 := hfull.imp_right fun hfull =>
      le_antisymm hlog ((Nat.le_log2 hpos.ne').mpr hfull)
    rw [shiftToTargetExponent_eq hpos.ne' (by omega) (d := 0) (by rw [hexcess]; omega), hexcess]
    refine ⟨r, _, rfl, rfl, hpos, ⟨by omega, hlt, hfull.imp_left fun h => ?_⟩, ?_⟩
    · omega
    · rw [← hscaled]
      congr 1
      omega
  · have hlog : Nat.log2 (2 ^ 53) = 53 := Nat.log2_two_pow
    rw [shiftToTargetExponent_eq hpos.ne' (by omega) (d := 1) (by rw [hexcess]; omega), hexcess,
      hlog]
    refine ⟨2 ^ 52, _, rfl, rfl, by decide, ⟨by omega, by decide, .inr le_rfl⟩, ?_⟩
    rw [scaled, show (((53 + t - 52 : Nat) : Int) - 1074 + 1074).toNat = t + 1 by omega]
    ring

/-- Rounding gives a number in its form, whose value is the nearest one. -/
theorem roundWithAccuracy_eq_nearest (s : Sign) {m : Nat} (hm : m ≠ 0) {e : Int} (he : -1074 ≤ e)
    (htarget : e + 1074 ≤ excess (scaled m e)) :
    ∃ n f, ∃ hpos : 0 < n, roundWithAccuracy .binary64 s m e .exact = .finite s n f hpos ∧
      Placed n f ∧
      scaled n f = nearest (scaled m e) (excess (scaled m e)) * 2 ^ excess (scaled m e) := by
  generalize hx : scaled m e = x at htarget ⊢
  have hfull : excess x = 0 ∨ 2 ^ 52 ≤ nearest x (excess x) :=
    or_iff_not_imp_left.mpr le_nearest_excess
  have hpos : 0 < nearest x (excess x) := by
    rcases hfull with hzero | hfull
    · rw [hzero, nearest_zero, ← hx]
      exact scaled_pos e (Nat.pos_of_ne_zero hm)
    · exact Nat.pos_of_ne_zero (by omega)
  obtain ⟨d, hd⟩ := Int.eq_ofNat_of_zero_le (sub_nonneg.mpr htarget)
  have hrounded : (ExtendedMantissa.mk m false false >>> d).roundedMantissa =
      nearest x (excess x) := by
    have hsplit : excess x = d + (e + 1074).toNat := by omega
    rw [hsplit, ← hx]
    exact (nearest_mul_two_pow m _ d).symm
  obtain ⟨n, f, hn, hf, hn0, hplaced, hvalue⟩ := exists_placed hpos (nearest_excess_le x) hfull
  refine ⟨n, f, hn0, ?_, hplaced, hvalue⟩
  have hshift := shiftToTargetExponent_eq hm he (d := d) (by rw [hx]; omega)
  rw [hx] at hshift
  simp only [roundWithAccuracy, hshift, hrounded, hn, hf]
  rw [dif_neg hn0.ne']

/-- Rounding to nearest gives a number in its form, whose value is the nearest one. -/
theorem round_eq_nearest (s : Sign) {m : Nat} (hm : m ≠ 0) {e : Int} (he : -1074 ≤ e) :
    ∃ n f, ∃ hpos : 0 < n, UnpackedFloat.round .binary64 s m e = .finite s n f hpos ∧
      Placed n f ∧
      scaled n f = nearest (scaled m e) (excess (scaled m e)) * 2 ^ excess (scaled m e) := by
  -- an exponent that is too high is lowered first, and then the value is rounded
  have hscaled : ∀ d : Nat, (d : Int) ≤ e + 1074 → scaled (m <<< d) (e - d) = scaled m e := by
    intro d hd
    rw [scaled, scaled, Nat.shiftLeft_eq, mul_assoc, ← pow_add]
    congr 2
    omega
  rw [UnpackedFloat.round, targetExponent_eq hm he, decreaseExponent]
  have hlower := hscaled (e - (excess (scaled m e) - 1074)).toNat (by omega)
  obtain ⟨n, f, hpos, hround, hplaced, hvalue⟩ := roundWithAccuracy_eq_nearest s
    (m := m <<< (e - (excess (scaled m e) - 1074)).toNat)
    (e := e - (e - (excess (scaled m e) - 1074)).toNat)
    (by simpa [Nat.shiftLeft_eq] using hm) (by omega) (by rw [hlower]; omega)
  exact ⟨n, f, hpos, hround, hplaced, by rw [hvalue, hlower]⟩

end Rounding

section Packing

/-- What is unpacked is in its form unless it is infinite or no number. -/
theorem settled_unpack {x : Float.Model} (h : x.unpack.isFinite = true) : Settled x.unpack := by
  have hbias : ((Format.binary64.exponentBias : Nat) : Int) +
      (Format.binary64.mantissaBitsWithoutImplicit : Nat) = 1075 := rfl
  rw [Float.Model.unpack] at h ⊢
  generalize x.toBits.toBitVec = bits at h ⊢
  unfold UnpackedFloat.unpack at h ⊢
  dsimp only at h ⊢
  rw [hbias] at h ⊢
  split at h
  next => split at h <;> cases h
  next hfinite =>
    rw [if_neg hfinite]
    have hmantissa : (@unpackMantissa .binary64 bits).toNat < 2 ^ 52 := BitVec.isLt _
    split
    next hsubnormal =>
      rw [hsubnormal]
      split
      next => exact .zero _
      next => exact .finite _ ⟨by decide, by omega, .inl rfl⟩ _
    next hnormal =>
      rw [← ne_eq, ← BitVec.toNat_ne_iff_ne] at hnormal
      have hlead : (1#1 ++ @unpackMantissa .binary64 bits).toNat =
          2 ^ 52 + (@unpackMantissa .binary64 bits).toNat := by
        rw [BitVec.toNat_append, ← Nat.shiftLeft_add_eq_or_of_lt (BitVec.isLt _)]
        rfl
      refine .finite _ ⟨?_, hlead ▸ by omega, .inr (hlead ▸ Nat.le_add_right _ _)⟩ _
      have := Nat.pos_of_ne_zero hnormal
      omega

/-- Infinity is read back as packed. -/
theorem unpack_packedInfinity (s : Sign) :
    UnpackedFloat.unpack .binary64 (packedInfinity .binary64 s) = .infinity s := by
  cases s <;> rfl

/-- A significand of fewer bits is packed at the lowest exponent. -/
theorem unpack_pack_short (s : Sign) {m : Nat} (hm : m < 2 ^ 52) (hpos : 0 < m) :
    UnpackedFloat.unpack .binary64 (UnpackedFloat.pack .binary64 (.finite s m (-1074) hpos)) =
      .finite s m (-1074) hpos := by
  have hlog : m.log2 + 1 ≠ Format.binary64.mantissaBits := by
    have := (Nat.log2_lt hpos.ne').mpr hm
    show m.log2 + 1 ≠ 53
    omega
  have hpack : UnpackedFloat.pack .binary64 (.finite s m (-1074) hpos) =
      packComponents .binary64 s 0#11 (BitVec.ofNat 52 m) := by
    simp only [UnpackedFloat.pack]
    rw [if_neg (by decide), if_neg hlog]
  have hmantissa : (BitVec.ofNat 52 m).toNat = m := by
    rw [BitVec.toNat_ofNat, Nat.mod_eq_of_lt hm]
  have hne : BitVec.ofNat 52 m ≠ 0#52 := by
    rw [← BitVec.toNat_ne_iff_ne, hmantissa]
    exact hpos.ne'
  rw [hpack]
  simp only [UnpackedFloat.unpack, unpackMantissa_packComponents, unpackExponent_packComponents,
    unpackSign_packComponents, ofBitVec_toBitVec]
  rw [if_neg (by decide), if_pos trivial, dif_neg hne]
  exact finite_congr hmantissa rfl

/-- A number in its form is read back as packed, or overflows. -/
theorem unpack_pack_placed (s : Sign) {m : Nat} {e : Int} (h : Placed m e) (hpos : 0 < m) :
    (Float.Model.pack (.finite s m e hpos)).unpack =
      if e ≤ 971 then .finite s m e hpos else .infinity s := by
  have hlow := h.lowest
  split
  next hhigh =>
    by_cases hlong : 2 ^ 52 ≤ m
    · have hlog : m.log2 = 52 :=
        le_antisymm (log2_le hpos.ne' h.bound) ((Nat.le_log2 hpos.ne').mpr hlong)
      exact unpack_pack_finite s hlog h.lowest hhigh hpos
    · obtain rfl : e = -1074 := h.full.resolve_right hlong
      exact unpack_pack_short s (Nat.not_le.mp hlong) hpos
  next hhigh =>
    have hoverflow : 2 ^ Format.binary64.exponentBits ≤ (e + (Format.exponentBias .binary64 : Nat) +
        (Format.binary64.mantissaBitsWithoutImplicit : Nat)).toNat + 1 := by
      show 2048 ≤ (e + (1023 : Nat) + (52 : Nat)).toNat + 1
      omega
    show UnpackedFloat.unpack .binary64 (UnpackedFloat.pack .binary64 _) = _
    simp only [UnpackedFloat.pack]
    rw [if_pos hoverflow]
    exact unpack_packedInfinity s

end Packing

section Difference

/-- A number in its form is the nearest to itself. -/
theorem nearest_scaled {m : Nat} {e : Int} (h : Placed m e) (hpos : 0 < m) :
    nearest (scaled m e) (excess (scaled m e)) * 2 ^ excess (scaled m e) = scaled m e := by
  have hlog := log2_le hpos.ne' h.bound
  have hexcess : excess (scaled m e) = (e + 1074).toNat := by
    rw [excess, log2_scaled hpos.ne']
    rcases h.full with rfl | hfull
    · simpa [Nat.sub_eq_zero_iff_le] using hlog
    · have := (Nat.le_log2 hpos.ne').mpr hfull
      omega
  have hnearest := nearest_mul_two_pow m (e + 1074).toNat 0
  rw [Nat.zero_add, nearest_zero] at hnearest
  rw [hexcess, scaled, hnearest]

/-- A number is the nearest one to a value in units. -/
structure IsNearest (r : UnpackedFloat) (x : Nat) : Prop where
  /-- The number is in its form. -/
  settled : Settled r
  /-- The value of the number is the nearest one. -/
  value : (units r).natAbs = nearest x (excess x) * 2 ^ excess x

/-- A sum is rounded to the nearest number. -/
theorem isNearest_normalize (d : Int) {e : Int} (he : -1074 ≤ e) (s : Sign) :
    IsNearest (UnpackedFloat.normalize .binary64 d e s) (scaled d.natAbs e) := by
  have hround : ∀ t, d ≠ 0 → IsNearest (UnpackedFloat.round .binary64 t d.natAbs e)
      (scaled d.natAbs e) := by
    intro t hd
    obtain ⟨n, f, hpos, hround, hplaced, hvalue⟩ :=
      round_eq_nearest t (Int.natAbs_ne_zero.mpr hd) he
    rw [hround]
    refine ⟨.finite t hplaced hpos, ?_⟩
    rw [← hvalue]
    cases t <;> simp [units, Sign.apply]
  rw [UnpackedFloat.normalize]
  rcases lt_trichotomy d 0 with hneg | rfl | hpos
  · rw [compare_lt_iff_lt.mpr hneg, show (-d).toNat = d.natAbs by omega]
    exact hround _ hneg.ne
  · refine ⟨.zero s, ?_⟩
    simp [units, scaled, excess]
  · rw [compare_gt_iff_gt.mpr hpos, show d.toNat = d.natAbs by omega]
    exact hround _ hpos.ne'

/-- A number in its form is the nearest to its own value. -/
theorem isNearest_finite (s : Sign) {m : Nat} {e : Int} (h : Placed m e) (hpos : 0 < m) :
    IsNearest (.finite s m e hpos) (scaled m e) := by
  refine ⟨.finite s h hpos, ?_⟩
  rw [nearest_scaled h hpos]
  cases s <;> simp [units, Sign.apply]

/-- A number at a higher exponent has the same value when it is brought to a lower one. -/
theorem scaled_decreaseExponent (m : Nat) {e f : Int} (hf : -1074 ≤ f) (h : f ≤ e) :
    scaled (decreaseExponent m e f).1 f = scaled m e := by
  rw [decreaseExponent, scaled, scaled, Nat.shiftLeft_eq, mul_assoc, ← pow_add]
  congr 2
  omega

/-- A sign goes out of a product. -/
theorem apply_mul (s : Sign) (x : Int) (k : Nat) : s.apply x * (k : Int) = s.apply (x * k) := by
  cases s <;> simp [Sign.apply]

/-- The difference of two numbers other than zero is rounded from that of their values, which is
taken at the lower exponent. -/
theorem isNearest_sub_finite (s t : Sign) {m n : Nat} {e f : Int} (hm : Placed m e)
    (hn : Placed n f) (hpos : 0 < m) (hpos' : 0 < n) :
    IsNearest (UnpackedFloat.sub .binary64 (.finite s m e hpos) (.finite t n f hpos'))
      (units (.finite s m e hpos) - units (.finite t n f hpos')).natAbs := by
  have hlow : -1074 ≤ min e f := le_min hm.lowest hn.lowest
  set m' := (decreaseExponent m e (min e f)).1
  set n' := (decreaseExponent n f (min e f)).1
  have hm' : scaled m' (min e f) = scaled m e :=
    scaled_decreaseExponent m hlow (min_le_left e f)
  have hn' : scaled n' (min e f) = scaled n f :=
    scaled_decreaseExponent n hlow (min_le_right e f)
  have hvalue : (units (.finite s m e hpos) - units (.finite t n f hpos')).natAbs =
      scaled (s.apply m' - t.apply n').natAbs (min e f) := by
    show (s.apply (scaled m e) - t.apply (scaled n f)).natAbs = _
    rw [← hm', ← hn']
    simp only [scaled, Nat.cast_mul, ← apply_mul, ← sub_mul, Int.natAbs_mul, Int.natAbs_natCast]
  rw [hvalue]
  exact isNearest_normalize _ hlow .positive

/-- The difference of two numbers is the nearest one to the difference of their values. -/
theorem isNearest_sub {a b : UnpackedFloat} (ha : Settled a) (hb : Settled b) :
    IsNearest (UnpackedFloat.sub .binary64 a b) (units a - units b).natAbs := by
  cases ha with
  | zero s =>
    cases hb with
    | zero t =>
      have hzero : ∀ u, IsNearest (.zero u) 0 := fun u => ⟨.zero u, rfl⟩
      show IsNearest (if s == -t then .zero s else .zero .positive) 0
      split <;> exact hzero _
    | @finite t n f hn hpos =>
      have hvalue : (units (.zero s) - units (.finite t n f hpos)).natAbs = scaled n f := by
        cases t <;> simp [units, Sign.apply]
      rw [hvalue]
      exact isNearest_finite (-t) hn hpos
  | @finite s m e hm hpos =>
    cases hb with
    | zero t =>
      have hvalue : (units (.finite s m e hpos) - units (.zero t)).natAbs = scaled m e := by
        cases s <;> simp [units, Sign.apply]
      rw [hvalue]
      exact isNearest_finite s hm hpos
    | @finite t n f hn hpos' => exact isNearest_sub_finite s t hm hn hpos hpos'

/-- A number with an odd significand is below the nearest one to a value exactly if that reaches the
middle to the next number above. -/
theorem lt_nearest_excess_iff {m : Nat} (hodd : m % 2 = 1) (hlow : 2 ^ 52 ≤ m) (hhigh : m < 2 ^ 53)
    (x k : Nat) :
    m * 2 ^ (k + 1) < nearest x (excess x) * 2 ^ excess x ↔ (2 * m + 1) * 2 ^ k ≤ x := by
  rcases lt_trichotomy (excess x) (k + 1) with hlt | heq | hgt
  · -- a shorter number is below both
    have hpower : 2 ^ (53 + excess x) ≤ 2 ^ (53 + k) := Nat.pow_le_pow_right (by decide) (by omega)
    have hsplit : ∀ j, 2 ^ (53 + j) = 2 ^ 53 * 2 ^ j := fun j => pow_add 2 53 j
    have hnear := Nat.mul_le_mul_right (2 ^ excess x) (nearest_excess_le x)
    have hx := lt_two_pow_excess x
    have hk := Nat.mul_le_mul_right (2 ^ k) (show 2 ^ 53 ≤ 2 * m by omega)
    rw [hsplit, hsplit] at hpower
    rw [hsplit] at hx
    rw [pow_succ, add_mul, one_mul]
    have hpos := Nat.two_pow_pos k
    constructor <;> intro h <;> exfalso <;> nlinarith
  · rw [heq, Nat.mul_lt_mul_right (Nat.two_pow_pos _)]
    exact lt_nearest_iff hodd x k
  · -- a longer number is above both
    have hpower : 2 ^ (k + 2) ≤ 2 ^ excess x := Nat.pow_le_pow_right (by decide) (by omega)
    have hnear := Nat.mul_le_mul_right (2 ^ excess x)
      (le_nearest_excess (x := x) (Nat.ne_of_gt (Nat.zero_lt_of_lt hgt)))
    have hx := two_pow_excess_le (x := x) (Nat.ne_of_gt (Nat.zero_lt_of_lt hgt))
    rw [pow_add] at hx hpower
    rw [pow_succ]
    have hpos := Nat.two_pow_pos k
    constructor <;> intro _ <;> nlinarith

/-- A finite number is below the magnitude of another, which may overflow, exactly if its value is
below that of the other. -/
theorem compare_pack_abs_iff {m : Nat} {e : Int} (hm : Placed m e) (he : e ≤ 971) (hpos : 0 < m)
    {r : UnpackedFloat} (hr : Settled r) :
    (UnpackedFloat.finite .positive m e hpos).compare
        (Float.Model.pack (Float.Model.pack r).unpack.abs).unpack = some .lt ↔
      scaled m e < (units r).natAbs := by
  cases hr with
  | zero s =>
    have hpack : (Float.Model.pack (Float.Model.pack (.zero s)).unpack.abs).unpack =
        .zero .positive := by
      cases s <;> rfl
    rw [hpack, compare_eq_lt_iff (.finite .positive hm hpos) (.zero .positive)]
    simp only [units, Sign.apply]
    omega
  | @finite s n f hn hpos' =>
    have hvalue : (units (.finite s n f hpos')).natAbs = scaled n f := by
      cases s <;> simp [units, Sign.apply]
    rw [unpack_pack_placed s hn hpos', hvalue]
    split
    next hhigh =>
      rw [UnpackedFloat.abs, unpack_pack_placed .positive hn hpos', if_pos hhigh,
        compare_eq_lt_iff (.finite .positive hm hpos) (.finite .positive hn hpos')]
      exact Nat.cast_lt
    next hhigh =>
      have hinfinite : (Float.Model.pack (UnpackedFloat.infinity s).abs).unpack =
          .infinity .positive := unpack_packedInfinity .positive
      rw [hinfinite]
      exact iff_of_true rfl (scaled_lt_of_lt hm hn (by omega))

/-- A finite number with an odd significand of fifty-three bits is below the distance of two others
exactly if the distance of their values reaches the middle to the next number above. -/
theorem lt_abs_sub_iff {a b c : Float} (ha : a.isFinite = true) (hb : b.isFinite = true) {m k : Nat}
    (hpos : 0 < m) (hc : c.toModel.unpack = .finite .positive m (k - 1073) hpos)
    (hk : k ≤ 2044) (hodd : m % 2 = 1) (hlow : 2 ^ 52 ≤ m) (hhigh : m < 2 ^ 53) :
    c < (a - b).abs ↔
      (2 * m + 1) * 2 ^ k ≤ (units a.toModel.unpack - units b.toModel.unpack).natAbs := by
  obtain ⟨hsettled, hvalue⟩ := isNearest_sub (settled_unpack ha) (settled_unpack hb)
  have hplaced : Placed m (k - 1073) := ⟨by omega, hhigh, .inr hlow⟩
  have hscaled : scaled m (k - 1073) = m * 2 ^ (k + 1) := by
    rw [scaled]
    congr 2
    omega
  rw [lt_iff_compare, hc]
  refine (compare_pack_abs_iff hplaced (by omega) hpos hsettled).trans ?_
  rw [hscaled, hvalue]
  exact lt_nearest_excess_iff hodd hlow hhigh _ k

/-- Finite numbers are in order as their values are. -/
theorem lt_iff_units {a b : Float} (ha : a.isFinite = true) (hb : b.isFinite = true) :
    a < b ↔ units a.toModel.unpack < units b.toModel.unpack := by
  rw [lt_iff_compare]
  exact compare_eq_lt_iff (settled_unpack ha) (settled_unpack hb)

end Difference

end ShopFloor.Binary64
