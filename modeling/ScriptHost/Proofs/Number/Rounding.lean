import Mathlib
import ScriptHost.Number.Print

/-!
The bits of a double and the form that they stand for, and how a number is rounded to one.
-/

namespace ScriptHost.Number

open Float.Model Float.Model.UnpackedFloat

/-! ## Forms -/

def isNegative : Sign → Bool
  | .negative => true
  | .positive => false

/-- The form of the number that is packed into the bits of a double. -/
def Form.ofUnpacked : UnpackedFloat → Form
  | .notANumber => .nan
  | .infinity s => .infinite (isNegative s)
  | .zero s => .finite (isNegative s) 0 (-1074)
  | .finite s m e _ => .finite (isNegative s) m e

theorem toNat_unpackMantissa (bits : UInt64) :
    (@unpackMantissa .binary64 bits.toBitVec).toNat = (bits &&& 0xfffffffffffff).toNat := by
  simp only [unpackMantissa, BitVec.toNat_cast, BitVec.extractLsb_toNat, UInt64.toNat_and,
    UInt64.toNat_toBitVec]
  rw [show (0xfffffffffffff : UInt64).toNat = 2 ^ 52 - 1 from rfl, Nat.and_two_pow_sub_one_eq_mod]
  rfl

theorem toNat_unpackExponent (bits : UInt64) :
    (@unpackExponent .binary64 bits.toBitVec).toNat = ((bits >>> 52) &&& 0x7ff).toNat := by
  simp only [unpackExponent, BitVec.toNat_cast, BitVec.extractLsb_toNat, UInt64.toNat_and,
    UInt64.toNat_toBitVec, UInt64.toNat_shiftRight]
  rw [show (0x7ff : UInt64).toNat = 2 ^ 11 - 1 from rfl, Nat.and_two_pow_sub_one_eq_mod]
  rfl

theorem toNat_unpackSign (bits : UInt64) :
    (@unpackSign .binary64 bits.toBitVec).toNat = (bits >>> 63).toNat := by
  simp only [unpackSign, BitVec.toNat_cast, BitVec.extractLsb_toNat, UInt64.toNat_toBitVec,
    UInt64.toNat_shiftRight]
  have hlt : bits.toNat >>> 63 < 2 ^ 1 := by
    rw [Nat.shiftRight_eq_div_pow, Nat.div_lt_iff_lt_mul (by decide)]
    exact bits.toNat_lt
  exact Nat.mod_eq_of_lt hlt

theorem isNegative_unpackSign (bits : UInt64) :
    isNegative (.ofBitVec (@unpackSign .binary64 bits.toBitVec)) = (bits >>> 63 == 1) := by
  have hsign := toNat_unpackSign bits
  generalize @unpackSign .binary64 bits.toBitVec = b at hsign
  obtain rfl | rfl : b = 0#1 ∨ b = 1#1 := by
    have hlt := b.isLt
    simp only [← BitVec.toNat_inj, BitVec.toNat_ofNat]
    omega
  · rw [show bits >>> 63 = 0 from UInt64.toNat_inj.1 hsign.symm]
    rfl
  · rw [show bits >>> 63 = 1 from UInt64.toNat_inj.1 hsign.symm]
    rfl

theorem toNat_leading (fraction : BitVec 52) :
    (1#1 ++ fraction).toNat = leadingBit + fraction.toNat := by
  rw [BitVec.toNat_append, Nat.shiftLeft_eq, Nat.mul_comm,
    ← Nat.two_pow_add_eq_or_of_lt fraction.isLt]
  rfl

theorem form_eq (x : Float) : form x = .ofUnpacked x.toModel.unpack := by
  have hunpack : x.toModel.unpack = UnpackedFloat.unpack .binary64 x.toBits.toBitVec := rfl
  unfold form
  dsimp only
  rw [← toNat_unpackMantissa, ← toNat_unpackExponent, ← isNegative_unpackSign, hunpack]
  generalize hfraction : @unpackMantissa .binary64 x.toBits.toBitVec = fraction
  generalize hbiased : @unpackExponent .binary64 x.toBits.toBitVec = biased
  simp only [UnpackedFloat.unpack, hfraction, hbiased]
  have hones : biased = -1#11 ↔ biased.toNat = 0x7ff := by
    rw [← BitVec.toNat_inj]
    rfl
  have hzeros : biased = 0#11 ↔ biased.toNat = 0 := by
    rw [← BitVec.toNat_inj]
    rfl
  have hnone : fraction = 0#52 ↔ fraction.toNat = 0 := by
    rw [← BitVec.toNat_inj]
    rfl
  by_cases hone : biased = -1#11
  · rw [if_pos (hones.1 hone), if_pos hone]
    by_cases hfraction : fraction = 0#52
    · rw [if_pos (hnone.1 hfraction), if_pos hfraction]
      rfl
    · rw [if_neg (hnone.not.1 hfraction), if_neg hfraction]
      rfl
  · rw [if_neg (hones.not.1 hone), if_neg hone]
    by_cases hzero : biased = 0#11
    · rw [if_pos (hzeros.1 hzero), if_pos hzero]
      by_cases hfraction : fraction = 0#52
      · rw [dif_pos hfraction, hnone.1 hfraction]
        rfl
      · rw [dif_neg hfraction, hzeros.1 hzero]
        rfl
    · rw [if_neg (hzeros.not.1 hzero), if_neg hzero]
      simp only [Form.ofUnpacked, toNat_leading]
      rfl

theorem form_mantissa_lt {x : Float} {negative : Bool} {m : Nat} {e : Int}
    (hx : form x = .finite negative m e) : m < 2 ^ 53 := by
  have hfraction : (x.toBits &&& 0xfffffffffffff).toNat < 2 ^ 52 := by
    rw [← toNat_unpackMantissa]
    exact BitVec.isLt _
  have hlead : leadingBit = 2 ^ 52 := rfl
  unfold form at hx
  dsimp only at hx
  split at hx
  · split at hx <;> exact nomatch hx
  · split at hx
    · obtain ⟨-, rfl, -⟩ := Form.finite.inj hx
      omega
    · obtain ⟨-, rfl, -⟩ := Form.finite.inj hx
      omega

/-! ## Packing -/

theorem ofBitVec_unpackSign {format : Format} (s : Sign) (biased : BitVec format.exponentBits)
    (fraction : BitVec format.mantissaBitsWithoutImplicit) :
    Sign.ofBitVec (unpackSign (packComponents format s biased fraction)) = s := by
  rw [unpackSign_packComponents, Sign.ofBitVec_toBitVec]

/-- The mantissas of normal doubles have fifty-three bits. -/
theorem unpack_pack_finite (s : Sign) {m : Nat} {e : Int} (hpos : 0 < m) (hm : 2 ^ 52 ≤ m)
    (hm' : m < 2 ^ 53) (he : -1074 ≤ e) (he' : e ≤ 971) :
    (Float.Model.pack (.finite s m e hpos)).unpack = .finite s m e hpos := by
  have hlog : m.log2 = 52 := (Nat.log2_eq_iff (Nat.ne_of_gt hpos)).2 ⟨hm, hm'⟩
  have hbias : e + (Format.binary64.exponentBias : Int) +
      (Format.binary64.mantissaBitsWithoutImplicit : Int) = e + 1075 := by
    simp only [Format.exponentBias]
    omega
  obtain ⟨biased, hbiased⟩ : ∃ biased : Nat, e + 1075 = biased :=
    ⟨(e + 1075).toNat, (Int.toNat_of_nonneg (by omega)).symm⟩
  have hpack : UnpackedFloat.pack .binary64 (.finite s m e hpos) =
      packComponents .binary64 s (BitVec.ofNat 11 biased) (BitVec.ofNat 52 m) := by
    simp only [UnpackedFloat.pack, hbias, hbiased, Int.toNat_natCast, hlog]
    rw [if_neg (show ¬ 2 ^ 11 ≤ biased + 1 by omega),
      if_pos (show 52 + 1 = Format.binary64.mantissaBits from rfl)]
  have hunpack : (Float.Model.pack (.finite s m e hpos)).unpack = UnpackedFloat.unpack .binary64
      (UnpackedFloat.pack .binary64 (.finite s m e hpos)) := rfl
  have hexponent : (BitVec.ofNat 11 biased).toNat = biased := by
    rw [BitVec.toNat_ofNat, Nat.mod_eq_of_lt (by omega)]
  have hones : BitVec.ofNat 11 biased ≠ -1#11 := by
    rw [← BitVec.toNat_inj.ne, hexponent]
    change biased ≠ 2047
    omega
  have hzeros : BitVec.ofNat 11 biased ≠ 0#11 := by
    rw [← BitVec.toNat_inj.ne, hexponent]
    change biased ≠ 0
    omega
  rw [hunpack, hpack]
  simp only [UnpackedFloat.unpack, unpackMantissa_packComponents, unpackExponent_packComponents,
    ofBitVec_unpackSign]
  rw [if_neg hones, if_neg hzeros]
  congr 1
  · rw [toNat_leading, BitVec.toNat_ofNat]
    change 2 ^ 52 + m % 2 ^ 52 = m
    omega
  · rw [hexponent]
    simp only [Format.exponentBias]
    omega

/-! ## Rounding -/

/-- What is left of a number that is shifted to the right, and what is known of the rest. -/
def Shifted (whole shift : Nat) (em : ExtendedMantissa) : Prop :=
  ∃ rest, whole = em.mantissa * 2 ^ shift + rest ∧ rest < 2 ^ shift ∧
    (em.roundBit = true ↔ 2 ^ shift ≤ 2 * rest) ∧
    (em.stickyBit = true ↔ rest ≠ 0 ∧ 2 * rest ≠ 2 ^ shift)

theorem shifted_none (whole : Nat) :
    Shifted whole 0 (.ofMantissaAndAccuracy whole .exact) :=
  ⟨0, by simp [ExtendedMantissa.ofMantissaAndAccuracy]⟩

theorem Shifted.one {whole shift : Nat} {em : ExtendedMantissa} (h : Shifted whole shift em) :
    Shifted whole (shift + 1) em.shiftRightOne := by
  obtain ⟨m, round, sticky⟩ := em
  obtain ⟨rest, hwhole, hrest, hround, hsticky⟩ := h
  have hpow : 2 ^ (shift + 1) = 2 * 2 ^ shift := by rw [Nat.pow_succ, Nat.mul_comm]
  have hhalves : m * 2 ^ shift = m / 2 * (2 * 2 ^ shift) + m % 2 * 2 ^ shift := by
    rw [← Nat.mul_assoc, ← Nat.add_mul, Nat.mul_comm (m / 2), Nat.div_add_mod]
  dsimp only at hwhole hround hsticky
  refine ⟨m % 2 * 2 ^ shift + rest, ?_, ?_, ?_, ?_⟩
  · simp only [ExtendedMantissa.shiftRightOne, hpow]
    omega
  · rcases Nat.mod_two_eq_zero_or_one m with hm | hm <;> rw [hm, hpow] <;> omega
  · simp only [ExtendedMantissa.shiftRightOne, bne_iff_ne, hpow]
    rcases Nat.mod_two_eq_zero_or_one m with hm | hm <;> rw [hm] <;> omega
  · simp only [ExtendedMantissa.shiftRightOne, Bool.or_eq_true, hround, hsticky]
    rcases Nat.mod_two_eq_zero_or_one m with hm | hm <;> rw [hm, hpow] <;> omega

theorem shifted (whole shift : Nat) :
    Shifted whole shift (ExtendedMantissa.ofMantissaAndAccuracy whole .exact >>> shift) := by
  induction shift with
  | zero => exact shifted_none whole
  | succ shift ih => exact ih.one

/-- The rounded mantissa is no more than half a unit away. -/
theorem Shifted.rounded {whole shift : Nat} {em : ExtendedMantissa} (h : Shifted whole shift em) :
    em.mantissa ≤ em.roundedMantissa ∧ em.roundedMantissa ≤ em.mantissa + 1 ∧
    2 * (em.roundedMantissa * 2 ^ shift) ≤ 2 * whole + 2 ^ shift ∧
    2 * whole ≤ 2 * (em.roundedMantissa * 2 ^ shift) + 2 ^ shift := by
  obtain ⟨m, round, sticky⟩ := em
  obtain ⟨rest, hwhole, hrest, hround, hsticky⟩ := h
  dsimp only at hwhole hround hsticky
  have hmore : (m + 1) * 2 ^ shift = m * 2 ^ shift + 2 ^ shift := by rw [Nat.add_mul, Nat.one_mul]
  cases round <;> cases sticky <;>
    simp only [ExtendedMantissa.roundedMantissa, ExtendedMantissa.accuracy,
      Accuracy.roundToNearestEven]
  · simp at hround hsticky
    omega
  · simp at hround hsticky
    omega
  · simp at hround hsticky
    rcases Nat.mod_two_eq_zero_or_one m with hm | hm <;> simp only [hm, hmore, Nat.add_zero] <;>
      omega
  · simp at hround hsticky
    omega

theorem mantissa_shifted (whole shift : Nat) :
    (ExtendedMantissa.ofMantissaAndAccuracy whole .exact >>> shift).mantissa =
      whole / 2 ^ shift := by
  obtain ⟨rest, hwhole, hrest, -⟩ := shifted whole shift
  exact (Nat.div_eq_of_lt_le (by omega) (by rw [Nat.add_mul, Nat.one_mul]; omega)).symm

theorem targetExponent_binary64 (total : Int) :
    Format.binary64.targetExponent total = max (total - 53) (-1074) := by
  simp only [Format.targetExponent]
  rfl

theorem shiftToTargetExponent_eq {m shift : Nat} {e : Int} (hlog : m.log2 = 52 + shift)
    (he : -1074 ≤ e + shift) :
    shiftToTargetExponent .binary64 m e .exact =
      (ExtendedMantissa.ofMantissaAndAccuracy m .exact >>> shift, e + shift) := by
  have htarget : (Format.binary64.targetExponent (totalExponent m e) - e).toNat = shift := by
    rw [targetExponent_binary64, totalExponent, hlog]
    omega
  simp only [shiftToTargetExponent, shiftToExponent, htarget]

/-- Rounding may make a mantissa one place too long, and then it is shifted again. -/
theorem roundWithAccuracy_shifted (s : Sign) {whole r shift carry : Nat} {e : Int}
    (hlog : whole.log2 = 52 + shift) (he : -1074 ≤ e + shift)
    (hr : (ExtendedMantissa.ofMantissaAndAccuracy whole .exact >>> shift).roundedMantissa = r)
    (hlog' : r.log2 = 52 + carry) (hpos : 0 < r / 2 ^ carry) :
    roundWithAccuracy .binary64 s whole e .exact =
      .finite s (r / 2 ^ carry) (e + shift + carry) hpos := by
  unfold roundWithAccuracy
  rw [shiftToTargetExponent_eq hlog he]
  dsimp only
  rw [hr, shiftToTargetExponent_eq hlog' (by omega)]
  simp only [mantissa_shifted]
  rw [dif_neg (Nat.ne_of_gt hpos)]

/-- A number with at least fifty-three bits is rounded to so many. -/
theorem roundWithAccuracy_eq (s : Sign) {whole shift : Nat} {e : Int}
    (hlog : whole.log2 = 52 + shift) (he : -1074 ≤ e + shift) :
    ∃ (m carry : Nat) (hpos : 0 < m), roundWithAccuracy .binary64 s whole e .exact =
        .finite s m (e + shift + carry) hpos ∧
      2 ^ 52 ≤ m ∧ m < 2 ^ 53 ∧ carry ≤ 1 ∧
      2 * (m * 2 ^ carry * 2 ^ shift) ≤ 2 * whole + 2 ^ shift ∧
      2 * whole ≤ 2 * (m * 2 ^ carry * 2 ^ shift) + 2 ^ shift := by
  obtain ⟨hlow, hhigh, hle, hge⟩ := (shifted whole shift).rounded
  have hne : whole ≠ 0 := by
    rintro rfl
    simp at hlog
    omega
  obtain ⟨hmin, hmax⟩ := (Nat.log2_eq_iff hne).1 hlog
  have hfloor : 2 ^ 52 ≤ whole / 2 ^ shift ∧ whole / 2 ^ shift < 2 ^ 53 := by
    rw [Nat.le_div_iff_mul_le (Nat.two_pow_pos shift), Nat.div_lt_iff_lt_mul (Nat.two_pow_pos shift),
      ← Nat.pow_add, ← Nat.pow_add]
    exact ⟨hmin, (by omega : 53 + shift = 52 + shift + 1) ▸ hmax⟩
  rw [mantissa_shifted] at hlow hhigh
  have hround {r carry : Nat} := @roundWithAccuracy_shifted s whole r shift carry e hlog he
  generalize (ExtendedMantissa.ofMantissaAndAccuracy whole .exact >>> shift).roundedMantissa = r
    at *
  by_cases hcarry : r < 2 ^ 53
  · have hlog' : r.log2 = 52 + 0 := (Nat.log2_eq_iff (by omega)).2 ⟨by omega, hcarry⟩
    have hpos : 0 < r / 2 ^ 0 := by omega
    exact ⟨r / 2 ^ 0, 0, hpos, hround rfl hlog' hpos, by omega, by omega, Nat.zero_le 1,
      by simpa using hle, by simpa using hge⟩
  · obtain rfl : r = 2 ^ 53 := by omega
    have hpos : 0 < 2 ^ 53 / 2 ^ 1 := by decide
    exact ⟨2 ^ 53 / 2 ^ 1, 1, hpos, hround rfl Nat.log2_two_pow hpos, by decide, by decide,
      Nat.le_refl 1, hle, hge⟩

theorem log2_mul_two_pow {m : Nat} (hm : m ≠ 0) (shift : Nat) :
    (m * 2 ^ shift).log2 = m.log2 + shift := by
  obtain ⟨hmin, hmax⟩ := (Nat.log2_eq_iff hm).1 rfl
  have hunit := Nat.two_pow_pos shift
  rw [Nat.log2_eq_iff (Nat.mul_ne_zero hm (Nat.ne_of_gt hunit)), Nat.pow_add,
    Nat.add_right_comm, Nat.pow_add]
  exact ⟨Nat.mul_le_mul_right _ hmin, Nat.mul_lt_mul_of_pos_right hmax hunit⟩

/-- Where all is measured in a smaller unit, distances are the same. -/
theorem scaled {m whole unit scale : Nat} (hscale : 0 < scale)
    (hle : 2 * (m * (unit * scale)) ≤ 2 * (whole * scale) + unit * scale)
    (hge : 2 * (whole * scale) ≤ 2 * (m * (unit * scale)) + unit * scale) :
    2 * (m * unit) ≤ 2 * whole + unit ∧ 2 * whole ≤ 2 * (m * unit) + unit := by
  constructor
  · refine Nat.le_of_mul_le_mul_right ?_ hscale
    rw [Nat.add_mul, Nat.mul_assoc 2, Nat.mul_assoc m, Nat.mul_assoc 2]
    exact hle
  · refine Nat.le_of_mul_le_mul_right ?_ hscale
    rw [Nat.add_mul, Nat.mul_assoc 2, Nat.mul_assoc 2, Nat.mul_assoc m]
    exact hge

/-- Nothing is lost where the bits that are shifted out are none. -/
theorem roundWithAccuracy_exact (s : Sign) {m shift : Nat} {e : Int} (hpos : 0 < m)
    (hmin : 2 ^ 52 ≤ m) (hmax : m < 2 ^ 53) (he : -1074 ≤ e + shift) :
    roundWithAccuracy .binary64 s (m * 2 ^ shift) e .exact = .finite s m (e + shift) hpos := by
  have hlog : (m * 2 ^ shift).log2 = 52 + shift := by
    rw [log2_mul_two_pow (Nat.ne_of_gt hpos),
      (Nat.log2_eq_iff (Nat.ne_of_gt hpos)).2 ⟨hmin, hmax⟩]
  obtain ⟨m', carry, hpos', heq, hmin', hmax', hcarry, hle, hge⟩ := roundWithAccuracy_eq s hlog he
  have hunit := Nat.two_pow_pos shift
  have hsame : m' * 2 ^ carry = m := by
    obtain ⟨hle', hge'⟩ := @scaled (m' * 2 ^ carry) m 1 (2 ^ shift) hunit
      (by rwa [Nat.one_mul]) (by rwa [Nat.one_mul])
    omega
  rcases Nat.le_one_iff_eq_zero_or_eq_one.1 hcarry with rfl | rfl
  · obtain rfl : m' = m := by simpa using hsame
    simpa using heq
  · omega

end ScriptHost.Number
