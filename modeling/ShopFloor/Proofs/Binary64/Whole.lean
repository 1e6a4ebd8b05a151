import Mathlib

/-!
# Whole numbers as floating-point numbers

Whole numbers below 2⁵³ are 64-bit floating-point numbers, and arithmetic on them is exact as long
as the results stay in that range: here the conversion, the difference and the comparison. Each is
read off the unpacked form, in which a whole number has a significand of fifty-three bits, so that
rounding only moves zeros. Main statements: `round_eq_whole`, `unpack_ofNat`, `sub_whole`,
`compare_whole`.
-/

namespace ShopFloor.Binary64

open Float.Model Float.Model.UnpackedFloat

/-- The unpacked form of a whole number: zero, or a significand of fifty-three bits. -/
def whole (s : Sign) (n : Nat) : UnpackedFloat :=
  if h : n = 0 then .zero s
  else .finite s (n * 2 ^ (52 - n.log2)) (n.log2 - 52) (Nat.mul_pos (Nat.pos_of_ne_zero h)
    (Nat.two_pow_pos _))

/-- Finite numbers of one significand and one exponent are equal. -/
theorem finite_congr {s : Sign} {m m' : Nat} {e e' : Int} {hm : 0 < m} (hm' : m = m')
    (he : e = e') : UnpackedFloat.finite s m e hm = .finite s m' e' (hm' ▸ hm) := by
  subst hm' he
  rfl

/-- Zeros at the end lengthen a number. -/
theorem log2_mul_two_pow {n : Nat} (hn : n ≠ 0) (k : Nat) : (n * 2 ^ k).log2 = n.log2 + k := by
  rw [Nat.log2_eq_iff (Nat.mul_ne_zero hn (Nat.two_pow_pos k).ne')]
  constructor
  · rw [pow_add]
    exact Nat.mul_le_mul_right _ (Nat.log2_self_le hn)
  · rw [add_right_comm, pow_add]
    exact Nat.mul_lt_mul_of_pos_right Nat.lt_log2_self (Nat.two_pow_pos k)

/-- A whole number in the range has at most fifty-three bits. -/
theorem log2_le {n : Nat} (hn : n ≠ 0) (hlt : n < 2 ^ 53) : n.log2 ≤ 52 :=
  Nat.lt_succ_iff.mp ((Nat.log2_lt hn).mpr hlt)

/-- The significand of a whole number has fifty-three bits. -/
theorem log2_significand {n : Nat} (hn : n ≠ 0) (hlt : n < 2 ^ 53) :
    (n * 2 ^ (52 - n.log2)).log2 = 52 := by
  have := log2_le hn hlt
  rw [log2_mul_two_pow hn]
  omega

section Rounding

/-- Zeros at the end of a significand are shifted out without a trace. -/
theorem shiftRight_mul_two_pow (m j : Nat) :
    (ExtendedMantissa.mk (m * 2 ^ j) false false) >>> j = ⟨m, false, false⟩ := by
  show j.repeat ExtendedMantissa.shiftRightOne _ = _
  induction j generalizing m with
  | zero => simp [Nat.repeat]
  | succ j ih =>
    have hsplit : m * 2 ^ (j + 1) = m * 2 * 2 ^ j := by ring
    rw [hsplit, Nat.repeat, ih]
    simp [ExtendedMantissa.shiftRightOne]

variable {m : Nat} (hm : m.log2 = 52) {e : Int} (he : -1074 ≤ e)
include hm he

/-- A significand of fifty-three bits with zeros behind it is shifted to its own place. -/
theorem shiftToTargetExponent_mul_two_pow (j : Nat) :
    shiftToTargetExponent .binary64 (m * 2 ^ j) (e - j) .exact = (⟨m, false, false⟩, e) := by
  have hne : m ≠ 0 := by
    rintro rfl
    cases hm
  have htarget : Format.binary64.targetExponent (totalExponent (m * 2 ^ j) (e - j)) = e := by
    rw [totalExponent, log2_mul_two_pow hne, hm]
    simp only [Format.targetExponent, Format.mantissaBits, Format.minExponent]
    omega
  have hshift : (e - (e - j)).toNat = j := by omega
  rw [shiftToTargetExponent, htarget, shiftToExponent, hshift]
  refine Prod.ext (shiftRight_mul_two_pow m j) ?_
  show e - j + j = e
  omega

/-- Rounding takes a significand of fifty-three bits as it is, and drops zeros behind it. -/
theorem roundWithAccuracy_mul_two_pow (s : Sign) (j : Nat) (hpos : 0 < m) :
    roundWithAccuracy .binary64 s (m * 2 ^ j) (e - j) .exact = .finite s m e hpos := by
  have hplain := shiftToTargetExponent_mul_two_pow hm he 0
  rw [pow_zero, mul_one, Nat.cast_zero, sub_zero] at hplain
  have hround : (ExtendedMantissa.mk m false false).roundedMantissa = m := rfl
  simp only [roundWithAccuracy, shiftToTargetExponent_mul_two_pow hm he j, hround, hplain]
  rw [dif_neg hpos.ne']

end Rounding

/-- Rounding takes a whole number, in whatever unit it is counted, as it is. -/
theorem round_eq_whole (s : Sign) {n : Nat} (hn : n ≠ 0) (hlt : n < 2 ^ 53) (k : Nat) :
    UnpackedFloat.round .binary64 s (n * 2 ^ k) (-k) = whole s n := by
  have hlog := log2_le hn hlt
  have htarget : Format.binary64.targetExponent (totalExponent (n * 2 ^ k) (-k)) =
      n.log2 - 52 := by
    rw [totalExponent, log2_mul_two_pow hn]
    simp only [Format.targetExponent, Format.mantissaBits, Format.minExponent]
    omega
  have hunits : ∃ j d : Nat, (-(k : Int) - (n.log2 - 52)).toNat = d ∧
      k + d = 52 - n.log2 + j := ⟨k - (52 - n.log2), _, rfl, by omega⟩
  obtain ⟨j, d, hd, hj⟩ := hunits
  have hsignificand : (n * 2 ^ k) <<< d = n * 2 ^ (52 - n.log2) * 2 ^ j := by
    rw [Nat.shiftLeft_eq, mul_assoc, mul_assoc, ← pow_add, ← pow_add, hj]
  have hexponent : -(k : Int) - d = (n.log2 - 52 : Int) - j := by omega
  rw [UnpackedFloat.round, htarget, decreaseExponent, hd, hsignificand]
  simp only [hexponent]
  rw [whole, dif_neg hn]
  exact roundWithAccuracy_mul_two_pow (log2_significand hn hlt) (by omega) s j _

section Packing

/-- The sign of a packed number. -/
@[simp] theorem unpackSign_packComponents {spec : Format} {s : Sign}
    {exponent : BitVec spec.exponentBits} {mantissa : BitVec spec.mantissaBitsWithoutImplicit} :
    unpackSign (packComponents spec s exponent mantissa) = s.toBitVec := by
  ext i hi
  obtain rfl : i = 0 := Nat.lt_one_iff.mp hi
  simp [unpackSign, packComponents, BitVec.getLsbD_append, BitVec.getElem_append]

/-- A sign is read back from its bit. -/
@[simp] theorem ofBitVec_toBitVec (s : Sign) : Sign.ofBitVec s.toBitVec = s := by
  cases s <;> rfl

/-- A significand of fifty-three bits is packed without its leading one, beside the exponent above
the lowest one. -/
theorem pack_finite (s : Sign) {m : Nat} (hm : m.log2 = 52) {e : Int} (hhigh : e ≤ 971)
    (hpos : 0 < m) :
    UnpackedFloat.pack .binary64 (.finite s m e hpos) =
      packComponents .binary64 s (BitVec.ofNat 11 (e + 1075).toNat) (BitVec.ofNat 52 m) := by
  have hbiased : e + (Format.exponentBias .binary64 : Nat) + (52 : Nat) = e + 1075 := by
    simp only [Format.exponentBias]
    omega
  simp only [UnpackedFloat.pack, hbiased, hm]
  rw [if_neg (by omega)]
  rfl

/-- Packed parts are read as a finite number unless the exponent is one of the two at the ends. -/
theorem unpack_packComponents (s : Sign) {b m : Nat} (hlow : 0 < b) (hhigh : b < 2047)
    (hm : m.log2 = 52) (hpos : 0 < m) :
    UnpackedFloat.unpack .binary64
        (packComponents .binary64 s (BitVec.ofNat 11 b) (BitVec.ofNat 52 m)) =
      .finite s m (b - 1075) hpos := by
  have hbounds := (Nat.log2_eq_iff hpos.ne').mp hm
  have hexponent : (BitVec.ofNat 11 b).toNat = b := by
    rw [BitVec.toNat_ofNat]
    omega
  have hinfinite : BitVec.ofNat 11 b ≠ -1#_ := by
    rw [ne_eq, ← BitVec.toNat_inj, hexponent]
    exact hhigh.ne
  have hsubnormal : BitVec.ofNat 11 b ≠ 0#_ := by
    rw [ne_eq, ← BitVec.toNat_inj, hexponent]
    exact hlow.ne'
  have hsignificand : (1#1 ++ BitVec.ofNat 52 m).toNat = m := by
    rw [BitVec.toNat_append, ← Nat.shiftLeft_add_eq_or_of_lt (BitVec.isLt _), BitVec.toNat_ofNat,
      BitVec.toNat_ofNat, Nat.shiftLeft_eq]
    omega
  simp only [UnpackedFloat.unpack, unpackMantissa_packComponents, unpackExponent_packComponents,
    unpackSign_packComponents, ofBitVec_toBitVec, hexponent]
  rw [if_neg hinfinite, if_neg hsubnormal]
  exact finite_congr hsignificand rfl

/-- A number with a significand of fifty-three bits and an exponent in the range is read back as
packed. -/
theorem unpack_pack_finite (s : Sign) {m : Nat} (hm : m.log2 = 52) {e : Int} (hlow : -1074 ≤ e)
    (hhigh : e ≤ 971) (hpos : 0 < m) :
    UnpackedFloat.unpack .binary64 (UnpackedFloat.pack .binary64 (.finite s m e hpos)) =
      .finite s m e hpos := by
  rw [pack_finite s hm hhigh hpos, unpack_packComponents s (by omega) (by omega) hm hpos]
  exact finite_congr rfl (by omega)

/-- A whole number is read back as packed. -/
theorem unpack_pack_whole (s : Sign) {n : Nat} (hlt : n < 2 ^ 53) :
    (Float.Model.pack (whole s n)).unpack = whole s n := by
  by_cases hn : n = 0
  · rw [whole, dif_pos hn]
    cases s <;> rfl
  · have hlog := log2_le hn hlt
    rw [whole, dif_neg hn]
    exact unpack_pack_finite s (log2_significand hn hlt) (by omega) (by omega) _

end Packing

section Arithmetic

/-- In a smaller unit a whole number only has more zeros. -/
theorem decreaseExponent_whole {n k : Nat} (hlog : n.log2 ≤ 52) (hk : 52 - n.log2 ≤ k) :
    (decreaseExponent (n * 2 ^ (52 - n.log2)) (n.log2 - 52) (-k)).1 = n * 2 ^ k := by
  have hshift : 52 - n.log2 + ((n.log2 - 52 : Int) - -k).toNat = k := by omega
  rw [decreaseExponent, Nat.shiftLeft_eq, mul_assoc, ← pow_add, hshift]

/-- The difference of two whole numbers is rounded to itself. -/
theorem normalize_sub {a b : Nat} (ha : a < 2 ^ 53) (hb : b < 2 ^ 53) (k : Nat) :
    UnpackedFloat.normalize .binary64 ((a * 2 ^ k : Nat) - (b * 2 ^ k : Nat)) (-k) .positive =
      if a < b then whole .negative (b - a) else whole .positive (a - b) := by
  have hunit : (0 : Int) < 2 ^ k := by positivity
  have hdifference : ((a * 2 ^ k : Nat) : Int) - (b * 2 ^ k : Nat) = (a - b) * 2 ^ k := by
    push_cast
    ring
  rw [UnpackedFloat.normalize, hdifference]
  rcases lt_trichotomy a b with hlt | rfl | hgt
  · have hneg : ((a : Int) - b) * 2 ^ k < 0 := mul_neg_of_neg_of_pos (by omega) hunit
    have hsize : (-(((a : Int) - b) * 2 ^ k)).toNat = (b - a) * 2 ^ k := by
      rw [← neg_mul, neg_sub, ← Nat.cast_sub hlt.le]
      exact_mod_cast Int.toNat_natCast _
    rw [compare_lt_iff_lt.mpr hneg, if_pos hlt]
    simp only [hsize]
    exact round_eq_whole .negative (by omega) (by omega) k
  · simp [whole]
  · have hpos : 0 < ((a : Int) - b) * 2 ^ k := mul_pos (by omega) hunit
    have hsize : (((a : Int) - b) * 2 ^ k).toNat = (a - b) * 2 ^ k := by
      rw [← Nat.cast_sub hgt.le]
      exact_mod_cast Int.toNat_natCast _
    rw [compare_gt_iff_gt.mpr hpos, if_neg (by omega)]
    simp only [hsize]
    exact round_eq_whole .positive (by omega) (by omega) k

/-- The difference of two whole numbers is exact. -/
theorem sub_whole {a b : Nat} (ha : a < 2 ^ 53) (hb : b < 2 ^ 53) :
    UnpackedFloat.sub .binary64 (whole .positive a) (whole .positive b) =
      if a < b then whole .negative (b - a) else whole .positive (a - b) := by
  by_cases hzero : a = 0
  · subst hzero
    by_cases hzero' : b = 0
    · subst hzero'
      rfl
    · simp [whole, hzero', Nat.pos_of_ne_zero hzero', UnpackedFloat.sub]
      rfl
  by_cases hzero' : b = 0
  · subst hzero'
    simp [whole, hzero, UnpackedFloat.sub]
  obtain ⟨k, hk⟩ : ∃ k : Nat, min ((a.log2 : Int) - 52) (b.log2 - 52) = -k :=
    ⟨52 - min a.log2 b.log2, by have := log2_le hzero ha; have := log2_le hzero' hb; omega⟩
  have hleft := decreaseExponent_whole (k := k) (log2_le hzero ha) (by omega)
  have hright := decreaseExponent_whole (k := k) (log2_le hzero' hb) (by omega)
  rw [← normalize_sub ha hb k, whole, whole, dif_neg hzero, dif_neg hzero']
  simp only [UnpackedFloat.sub, hk, hleft, hright, Sign.apply]

/-- A number with fewer bits is smaller. -/
theorem lt_of_log2_lt {a b : Nat} (hb : b ≠ 0) (h : a.log2 < b.log2) : a < b :=
  calc a < 2 ^ (a.log2 + 1) := Nat.lt_log2_self
    _ ≤ 2 ^ b.log2 := Nat.pow_le_pow_right (by decide) h
    _ ≤ b := Nat.log2_self_le hb

/-- Whole numbers compare as their unpacked forms do. -/
theorem compare_whole {a b : Nat} (ha : a < 2 ^ 53) (hb : b < 2 ^ 53) :
    (whole .positive a).compare (whole .positive b) = some (compare a b) := by
  by_cases hzero : a = 0
  · subst hzero
    by_cases hzero' : b = 0
    · subst hzero'
      rfl
    · rw [compare_lt_iff_lt.mpr (Nat.pos_of_ne_zero hzero'), whole, whole, dif_pos rfl,
        dif_neg hzero', UnpackedFloat.compare]
  by_cases hzero' : b = 0
  · subst hzero'
    rw [compare_gt_iff_gt.mpr (Nat.pos_of_ne_zero hzero), whole, whole, dif_neg hzero,
      dif_pos rfl, UnpackedFloat.compare]
  rw [whole, whole, dif_neg hzero, dif_neg hzero', UnpackedFloat.compare, Option.some.injEq]
  rcases lt_trichotomy a.log2 b.log2 with hlt | heq | hgt
  · have hexponent : (a.log2 : Int) - 52 < b.log2 - 52 := by omega
    rw [compare_lt_iff_lt.mpr hexponent, compare_lt_iff_lt.mpr (lt_of_log2_lt hzero' hlt)]
    rfl
  · rw [heq, compare_eq_iff_eq.mpr rfl]
    show compareOfLessAndEq _ _ = compareOfLessAndEq _ _
    simp only [compareOfLessAndEq, Nat.mul_lt_mul_right (Nat.two_pow_pos _),
      Nat.mul_left_inj (Nat.two_pow_pos _).ne']
  · have hexponent : (b.log2 : Int) - 52 < a.log2 - 52 := by omega
    rw [compare_gt_iff_gt.mpr hexponent, compare_gt_iff_gt.mpr (lt_of_log2_lt hzero hgt)]
    rfl

end Arithmetic

section Conversion

/-- Floating-point numbers are in order exactly when their unpacked forms compare so. -/
theorem lt_iff_compare {a b : Float} :
    a < b ↔ a.toModel.unpack.compare b.toModel.unpack = some .lt := by
  show decide (a.toModel < b.toModel) = true ↔ _
  rw [decide_eq_true_iff]
  show UnpackedFloat.lt _ _ = true ↔ _
  rw [UnpackedFloat.lt, beq_iff_eq]

/-- The floating-point number one. -/
theorem unpack_one : (Float.ofBits 0x3FF0000000000000).toModel.unpack =
    .finite .positive (2 ^ 52) (-52) (Nat.two_pow_pos 52) := rfl

/-- A whole number becomes the floating-point number of its unpacked form. -/
theorem unpack_ofNat {n : Nat} (hlt : n < 2 ^ 53) :
    (Float.ofNat n).toModel.unpack = whole .positive n := by
  -- the conversion goes through a machine word and a product with a power of ten, here with one
  have hword : UnpackedFloat.ofUInt64 .binary64 n.toUInt64 = whole .positive n := by
    have hnat : n.toUInt64.toNat = n := Nat.mod_eq_of_lt (by omega)
    rw [UnpackedFloat.ofUInt64, UnpackedFloat.ofNat, UnpackedFloat.ofInt, hnat]
    simpa using normalize_sub hlt (Nat.two_pow_pos 53) 0
  have hproduct : UnpackedFloat.mul .binary64 (whole .positive n)
      (.finite .positive (2 ^ 52) (-52) (Nat.two_pow_pos 52)) = whole .positive n := by
    by_cases hn : n = 0
    · subst hn
      rfl
    · have hlog := log2_le hn hlt
      rw [whole, dif_neg hn]
      exact roundWithAccuracy_mul_two_pow (log2_significand hn hlt) (by omega) .positive 52 _
  have hfast : Float.ofNat n = n.toUInt64.toFloat * Float.ofBits 0x3FF0000000000000 := by
    show Float.ofScientific n false 0 = _
    rw [Float.ofScientific, dif_pos ⟨hlt, Nat.zero_le _⟩]
    rfl
  rw [hfast]
  show (Float.Model.pack (UnpackedFloat.mul .binary64 (Float.Model.pack
    (UnpackedFloat.ofUInt64 .binary64 n.toUInt64)).unpack
    (Float.ofBits 0x3FF0000000000000).toModel.unpack)).unpack = _
  rw [hword, unpack_pack_whole .positive hlt, unpack_one, hproduct, unpack_pack_whole .positive hlt]

/-- The distance of two whole numbers is exact. -/
theorem unpack_abs_sub {a b : Nat} (ha : a < 2 ^ 53) (hb : b < 2 ^ 53) :
    (Float.ofNat a - Float.ofNat b).abs.toModel.unpack = whole .positive (a - b + (b - a)) := by
  show (Float.Model.pack (Float.Model.pack (UnpackedFloat.sub .binary64
    (Float.ofNat a).toModel.unpack (Float.ofNat b).toModel.unpack)).unpack.abs).unpack = _
  have habs : ∀ (s : Sign) (n : Nat), (whole s n).abs = whole .positive n := by
    intro s n
    by_cases hn : n = 0 <;> simp [whole, hn, UnpackedFloat.abs]
  rw [unpack_ofNat ha, unpack_ofNat hb, sub_whole ha hb]
  split
  next hlt =>
    rw [unpack_pack_whole .negative (by omega), habs, unpack_pack_whole .positive (by omega),
      Nat.sub_eq_zero_of_le hlt.le, zero_add]
  next hge =>
    rw [unpack_pack_whole .positive (by omega), habs, unpack_pack_whole .positive (by omega),
      Nat.sub_eq_zero_of_le (Nat.not_lt.mp hge), add_zero]

/-- Whole numbers are in order exactly when their floating-point numbers are. -/
theorem ofNat_lt_iff {a b : Nat} (ha : a < 2 ^ 53) (hb : b < 2 ^ 53) :
    Float.ofNat a < Float.ofNat b ↔ a < b := by
  rw [lt_iff_compare, unpack_ofNat ha, unpack_ofNat hb, compare_whole ha hb, Option.some.injEq,
    compare_lt_iff_lt]

end Conversion

end ShopFloor.Binary64
