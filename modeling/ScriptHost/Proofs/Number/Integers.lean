import ScriptHost.Proofs.Number.Rounding

/-!
Integers as doubles: those of at most fifty-three bits are doubles, and others become the nearest
one.
-/

namespace ScriptHost.Number

open Float.Model Float.Model.UnpackedFloat

/-! ## Integers -/

/-- An integer of at most fifty-three bits is filled up with zeros to so many. -/
theorem exists_fill {n : Nat} (hn : 0 < n) (hmax : n < 2 ^ 53) :
    ∃ fill, n.log2 + fill = 52 ∧ 2 ^ 52 ≤ n * 2 ^ fill ∧ n * 2 ^ fill < 2 ^ 53 := by
  have hlog : n.log2 < 53 := (Nat.log2_lt (Nat.ne_of_gt hn)).2 hmax
  have hfilled := log2_mul_two_pow (Nat.ne_of_gt hn) (52 - n.log2)
  rw [Nat.add_sub_cancel' (by omega), Nat.log2_eq_iff
    (Nat.mul_ne_zero (Nat.ne_of_gt hn) (Nat.ne_of_gt (Nat.two_pow_pos _)))] at hfilled
  exact ⟨52 - n.log2, by omega, hfilled.1, hfilled.2⟩

theorem round_small {n fill : Nat} (hlog : n.log2 + fill = 52) (hpos : 0 < n * 2 ^ fill)
    (hmin : 2 ^ 52 ≤ n * 2 ^ fill) (hmax : n * 2 ^ fill < 2 ^ 53) :
    UnpackedFloat.ofNat .binary64 n = .finite .positive (n * 2 ^ fill) (-fill) hpos := by
  have hn : n ≠ 0 := by
    rintro rfl
    simp at hpos
  have hround : UnpackedFloat.ofNat .binary64 n = UnpackedFloat.round .binary64 .positive n 0 := by
    obtain ⟨k, rfl⟩ := Nat.exists_eq_succ_of_ne_zero hn
    rfl
  have hfill : (0 - Format.binary64.targetExponent (totalExponent n 0)).toNat = fill := by
    rw [targetExponent_binary64, totalExponent]
    omega
  have hexact := @roundWithAccuracy_exact .positive _ 0 (-fill) hpos hmin hmax (by omega)
  rw [hround]
  unfold UnpackedFloat.round decreaseExponent
  simp only [hfill, Nat.shiftLeft_eq]
  simpa using hexact

theorem unpack_ofNat_small {n : Nat} (hn : 0 < n) (hmax : n < 2 ^ 53) :
    ∃ (fill : Nat) (hpos : 0 < n * 2 ^ fill),
      (Float.ofNat n).toModel.unpack = .finite .positive (n * 2 ^ fill) (-fill) hpos ∧
      fill ≤ 52 ∧ 2 ^ 52 ≤ n * 2 ^ fill ∧ n * 2 ^ fill < 2 ^ 53 := by
  obtain ⟨fill, hlog, hmin, hmax'⟩ := exists_fill hn hmax
  have hpos : 0 < n * 2 ^ fill := by omega
  refine ⟨fill, hpos, ?_, by omega, hmin, hmax'⟩
  have hproduct : Float.ofNat n =
      n.toUInt64.toFloat * Float.exactlyRepresentablePowersOfTen[0] := by
    change Float.ofScientific n false 0 = _
    unfold Float.ofScientific
    rw [dif_pos ⟨hmax, Nat.zero_le 22⟩]
    rfl
  have hone : (Float.exactlyRepresentablePowersOfTen[0]).toModel.unpack =
      .finite .positive (2 ^ 52) (-52) (by decide) := rfl
  have hfloat : n.toUInt64.toFloat.toModel.unpack =
      .finite .positive (n * 2 ^ fill) (-fill) hpos := by
    have hn64 : n.toUInt64.toNat = n := UInt64.toNat_ofNat_of_lt' (Nat.lt_trans hmax (by decide))
    have hofNat : n.toUInt64.toFloat.toModel.unpack =
        (Float.Model.pack (UnpackedFloat.ofNat .binary64 n.toUInt64.toNat)).unpack := rfl
    rw [hofNat, hn64, round_small hlog hpos hmin hmax']
    exact unpack_pack_finite .positive hpos hmin hmax' (by omega) (by omega)
  have hmul : (n.toUInt64.toFloat * Float.exactlyRepresentablePowersOfTen[0]).toModel.unpack =
      (Float.Model.pack (mul .binary64 n.toUInt64.toFloat.toModel.unpack
        (Float.exactlyRepresentablePowersOfTen[0]).toModel.unpack)).unpack := rfl
  have hrounded : mul .binary64 (.finite .positive (n * 2 ^ fill) (-fill) hpos)
      (.finite .positive (2 ^ 52) (-52) (by decide)) =
      roundWithAccuracy .binary64 .positive (n * 2 ^ fill * 2 ^ 52) (-fill + -52) .exact := rfl
  rw [hproduct, hmul, hfloat, hone, hrounded,
    roundWithAccuracy_exact .positive hpos hmin hmax' (by omega),
    unpack_pack_finite .positive hpos hmin hmax' (by omega) (by omega)]
  congr 1
  omega

theorem ofScientific_eq {n : Nat} (hn : n ≠ 0) : UnpackedFloat.ofScientific .binary64 n 0 =
    roundWithAccuracy .binary64 .positive (n * 2 ^ 53) (-53) .exact := by
  unfold UnpackedFloat.ofScientific
  rw [dif_neg hn, if_neg (by decide), if_neg (show ¬ (0 : Int) < -(2 ^ 11 + n.log2) by omega),
    if_pos (Int.le_refl 0)]
  simp only [Nat.shiftLeft_eq]
  change roundWithAccuracy .binary64 .positive (n * 2 ^ 53 * 1) (-53) .exact = _
  rw [Nat.mul_one]

/-- A longer one is rounded to so many bits. -/
theorem unpack_ofNat_large {n : Nat} (hmin : 2 ^ 53 ≤ n) (hmax : n < 2 ^ 64) :
    ∃ (m carry shift : Nat) (hpos : 0 < m),
      (Float.ofNat n).toModel.unpack = .finite .positive m (shift + carry : Nat) hpos ∧
      n.log2 = 52 + shift ∧ 1 ≤ shift ∧ 2 ^ 52 ≤ m ∧ m < 2 ^ 53 ∧ carry ≤ 1 ∧
      2 * (m * 2 ^ carry * 2 ^ shift) ≤ 2 * n + 2 ^ shift ∧
      2 * n ≤ 2 * (m * 2 ^ carry * 2 ^ shift) + 2 ^ shift := by
  have hne : n ≠ 0 := by omega
  have hlow : 53 ≤ n.log2 := (Nat.le_log2 hne).2 hmin
  have hhigh : n.log2 < 64 := (Nat.log2_lt hne).2 hmax
  obtain ⟨shift, hlog⟩ := Nat.exists_eq_add_of_le (show 52 ≤ n.log2 by omega)
  have hslow : Float.ofNat n = .ofModel (.pack (.ofScientific .binary64 n 0)) := by
    change Float.ofScientific n false 0 = _
    unfold Float.ofScientific
    rw [dif_neg (by omega)]
    rfl
  have hlog' : (n * 2 ^ 53).log2 = 52 + (shift + 53) := by
    rw [log2_mul_two_pow hne]
    omega
  obtain ⟨m, carry, hpos, heq, hm, hm', hcarry, hle, hge⟩ :=
    @roundWithAccuracy_eq .positive _ _ (-53) hlog' (by omega)
  rw [Nat.pow_add] at hle hge
  obtain ⟨hle', hge'⟩ := scaled (Nat.two_pow_pos 53) hle hge
  refine ⟨m, carry, shift, hpos, ?_, hlog, by omega, hm, hm', hcarry, hle', hge'⟩
  have hunpack : (Float.ofNat n).toModel.unpack =
      (Float.Model.pack (.ofScientific .binary64 n 0)).unpack := by
    rw [hslow]
  rw [hunpack, ofScientific_eq hne, heq, unpack_pack_finite .positive hpos hm hm' (by omega)
    (by omega)]
  congr 1
  omega

theorem form_ofInt {n : Int} {m : Nat} {e : Int} {hpos : 0 < m} (hm : 2 ^ 52 ≤ m)
    (hm' : m < 2 ^ 53) (he : -1074 ≤ e) (he' : e ≤ 971)
    (hn : (Float.ofNat n.natAbs).toModel.unpack = .finite .positive m e hpos) :
    form (Float.ofInt n) = .finite (decide (n < 0)) m e := by
  cases n with
  | ofNat n =>
    have hpositive : decide (Int.ofNat n < 0) = false := rfl
    have hunpack : (Float.ofInt n).toModel.unpack = .finite .positive m e hpos := hn
    rw [form_eq, hpositive]
    exact congrArg Form.ofUnpacked hunpack
  | negSucc n =>
    have hnegative : decide (Int.negSucc n < 0) = true := decide_eq_true (Int.negSucc_lt_zero n)
    have hneg : (Float.ofInt (Int.negSucc n)).toModel.unpack =
        (Float.Model.pack (Float.ofNat (n + 1)).toModel.unpack.neg).unpack := rfl
    have hunpack : (Float.ofNat (n + 1)).toModel.unpack = .finite .positive m e hpos := hn
    rw [form_eq, hnegative, hneg, hunpack]
    exact congrArg Form.ofUnpacked (unpack_pack_finite .negative hpos hm hm' he he')

theorem integer?_filled (negative : Bool) {n : Nat} (hn : 0 < n) (fill : Nat) :
    (Form.finite negative (n * 2 ^ fill) (-fill)).integer? = some (signed negative n) := by
  have hunit := Nat.two_pow_pos fill
  cases fill with
  | zero => simp [Form.integer?]
  | succ fill =>
    have hne : n * 2 ^ (fill + 1) ≠ 0 := Nat.mul_ne_zero (Nat.ne_of_gt hn) (Nat.ne_of_gt hunit)
    change (Form.finite negative (n * 2 ^ (fill + 1)) (.negSucc fill)).integer? = _
    simp only [Form.integer?, Nat.one_shiftLeft, Nat.shiftRight_eq_div_pow]
    rw [if_neg hne, if_pos (Nat.mul_mod_left _ _), Nat.mul_div_cancel _ hunit]

theorem signed_natAbs (n : Int) : signed (decide (n < 0)) n.natAbs = n := by
  by_cases hn : n < 0
  · rw [signed, decide_eq_true hn, if_pos rfl]
    omega
  · rw [signed, decide_eq_false hn, if_neg Bool.false_ne_true]
    omega

theorem natAbs_signed (negative : Bool) (n : Nat) : (signed negative n).natAbs = n := by
  cases negative <;> simp [signed]

theorem isFinite_of_form {x : Float} {negative : Bool} {m : Nat} {e : Int}
    (hx : form x = .finite negative m e) : x.isFinite = true := by
  have hfinite : x.isFinite = x.toModel.unpack.isFinite := rfl
  rw [form_eq] at hx
  rw [hfinite]
  generalize x.toModel.unpack = u at hx
  cases u with
  | notANumber | infinity => exact nomatch hx
  | zero | finite => rfl

theorem form_ofInt_small {n : Int} (hne : n ≠ 0) (hmax : n.natAbs < 2 ^ 53) :
    ∃ fill : Nat, form (Float.ofInt n) =
      .finite (decide (n < 0)) (n.natAbs * 2 ^ fill) (-fill) := by
  obtain ⟨fill, hpos, hunpack, hfill, hm, hm'⟩ := unpack_ofNat_small (Int.natAbs_pos.2 hne) hmax
  exact ⟨fill, form_ofInt hm hm' (by omega) (by omega) hunpack⟩

theorem integer?_ofInt {n : Int} (hmax : n.natAbs < 2 ^ 53) :
    integer? (Float.ofInt n) = some n := by
  by_cases hzero : n = 0
  · subst hzero
    rfl
  · obtain ⟨fill, hform⟩ := form_ofInt_small hzero hmax
    rw [integer?, hform, integer?_filled _ (Int.natAbs_pos.2 hzero), signed_natAbs]

theorem form_ofInt_large {n : Int} (hmin : 2 ^ 53 ≤ n.natAbs) (hmax : n.natAbs < 2 ^ 64) :
    ∃ m carry shift : Nat,
      form (Float.ofInt n) = .finite (decide (n < 0)) m (shift + carry : Nat) ∧
      n.natAbs.log2 = 52 + shift ∧ 1 ≤ shift ∧ 2 ^ 52 ≤ m ∧
      2 * (m * 2 ^ carry * 2 ^ shift) ≤ 2 * n.natAbs + 2 ^ shift ∧
      2 * n.natAbs ≤ 2 * (m * 2 ^ carry * 2 ^ shift) + 2 ^ shift := by
  obtain ⟨m, carry, shift, hpos, hunpack, hlog, hlong, hm, hm', hcarry, hle, hge⟩ :=
    unpack_ofNat_large hmin hmax
  have hhigh : n.natAbs.log2 < 64 := (Nat.log2_lt (by omega)).2 hmax
  exact ⟨m, carry, shift, form_ofInt hm hm' (by omega) (by omega) hunpack, hlog, hlong, hm,
    hle, hge⟩

/-! ## Safe integers -/

theorem smallInteger?_eq_some {x : Float} {n : Int} :
    smallInteger? x = some n ↔ integer? x = some n ∧ n.natAbs ≤ safeInteger := by
  unfold smallInteger?
  cases integer? x with
  | none => simp
  | some k =>
    simp only [Option.some.injEq]
    split
    · next hsafe =>
      constructor
      · rintro ⟨⟩
        exact ⟨rfl, hsafe⟩
      · rintro ⟨rfl, -⟩
        rfl
    · next hlarge =>
      constructor
      · rintro ⟨⟩
      · rintro ⟨rfl, hsafe⟩
        exact absurd hsafe hlarge

theorem smallInteger?_ofInt {n : Int} (hn : n.natAbs ≤ safeInteger) :
    smallInteger? (Float.ofInt n) = some n := by
  have hlimit : safeInteger < 2 ^ 53 := by decide
  exact smallInteger?_eq_some.2 ⟨integer?_ofInt (by omega), hn⟩

/-- An integer that is not safe becomes a finite number, but no safe integer. -/
theorem smallInteger?_ofInt_large {n : Int} (hmin : safeInteger < n.natAbs)
    (hmax : n.natAbs < 2 ^ 64) :
    smallInteger? (Float.ofInt n) = none ∧ (Float.ofInt n).isFinite = true := by
  have hlimit : safeInteger = 2 ^ 53 - 1 := by decide
  obtain ⟨m, carry, shift, hform, -, hlong, hm, -⟩ := form_ofInt_large (by omega) hmax
  refine ⟨?_, isFinite_of_form hform⟩
  rw [Option.eq_none_iff_forall_ne_some]
  intro k hk
  obtain ⟨hinteger, hsafe⟩ := smallInteger?_eq_some.1 hk
  rw [integer?, hform] at hinteger
  have hvalue : signed (decide (n < 0)) (m <<< (shift + carry)) = k := Option.some.inj hinteger
  rw [← hvalue, natAbs_signed, Nat.shiftLeft_eq] at hsafe
  have hunit : 2 ^ 1 ≤ 2 ^ (shift + carry) := Nat.pow_le_pow_right (by decide) (by omega)
  have hbig : 2 ^ 52 * 2 ^ 1 ≤ m * 2 ^ (shift + carry) := Nat.mul_le_mul hm hunit
  omega

/-! ## The nearest double -/

def magnitude (m : Nat) (e : Int) : ℚ :=
  m * 2 ^ e

/-- The number that a finite form stands for. -/
def Form.value? : Form → Option ℚ
  | .finite negative m e => some (if negative then -magnitude m e else magnitude m e)
  | _ => none

theorem magnitude_nonneg (m : Nat) (e : Int) : 0 ≤ magnitude m e := by
  unfold magnitude
  positivity

theorem magnitude_natCast (m shift : Nat) : magnitude m shift = (m <<< shift : Nat) := by
  rw [magnitude, zpow_natCast, Nat.shiftLeft_eq]
  push_cast
  rfl

theorem magnitude_negSucc (m shift : Nat) :
    magnitude m (.negSucc shift) * (1 <<< (shift + 1) : Nat) = m := by
  rw [magnitude, zpow_negSucc, Nat.one_shiftLeft]
  push_cast
  rw [mul_assoc, inv_mul_cancel₀ (by positivity), mul_one]

theorem value?_of_natCast {m n : Nat} {e : Int} (h : magnitude m e = n) (negative : Bool) :
    (Form.finite negative m e).value? = some ((signed negative n : Int) : ℚ) := by
  cases negative <;> simp [Form.value?, h, signed]

theorem natAbs_of_value? {m : Nat} {e n : Int} {negative : Bool}
    (h : (Form.finite negative m e).value? = some (n : ℚ)) : magnitude m e = n.natAbs := by
  have hnonneg := magnitude_nonneg m e
  have hvalue := Option.some.inj h
  have habs : ((n.natAbs : Int) : ℚ) = |(n : ℚ)| := by rw [Int.natCast_natAbs, Int.cast_abs]
  rw [← Int.cast_natCast, habs, ← hvalue]
  cases negative with
  | true => rw [if_pos rfl, abs_neg, abs_of_nonneg hnonneg]
  | false => rw [if_neg Bool.false_ne_true, abs_of_nonneg hnonneg]

/-- A double is an integer if what it stands for is one. -/
theorem Form.integer?_eq_some {f : Form} {n : Int} :
    f.integer? = some n ↔ f.value? = some (n : ℚ) := by
  have hsame {m k : Nat} {e : Int} {negative : Bool} (h : magnitude m e = k) :
      some (signed negative k) = some n ↔
        (Form.finite negative m e).value? = some (n : ℚ) := by
    rw [value?_of_natCast h, Option.some.injEq, Option.some.injEq, Int.cast_inj]
  cases f with
  | nan | infinite => simp [integer?, value?]
  | finite negative m e =>
    cases e with
    | ofNat shift => exact hsame (magnitude_natCast m shift)
    | negSucc shift =>
      have hunit := magnitude_negSucc m shift
      have hpos : 0 < 1 <<< (shift + 1) := by
        rw [Nat.one_shiftLeft]
        exact Nat.two_pow_pos _
      have hne : ((1 <<< (shift + 1) : Nat) : ℚ) ≠ 0 := by exact_mod_cast Nat.ne_of_gt hpos
      simp only [integer?]
      split
      · next hzero =>
        subst hzero
        have hnone : magnitude 0 (.negSucc shift) = (0 : Nat) := by simp [magnitude]
        simpa [signed] using @hsame _ _ _ negative hnone
      · split
        · next hmod =>
          refine hsame (mul_right_cancel₀ hne (hunit.trans ?_))
          rw [Nat.shiftRight_eq_div_pow, ← Nat.one_shiftLeft]
          exact_mod_cast (Nat.div_mul_cancel (Nat.dvd_of_mod_eq_zero hmod)).symm
        · next hmod =>
          constructor
          · exact nofun
          · intro hvalue
            rw [natAbs_of_value? hvalue] at hunit
            have hmultiple : n.natAbs * 1 <<< (shift + 1) = m := by exact_mod_cast hunit
            exact absurd (hmultiple ▸ Nat.mul_mod_left _ _) hmod

/-- A double that is as near to an integer as any. -/
def Nearest (x : Float) (n : Int) : Prop :=
  ∃ q, (form x).value? = some q ∧
    ∀ y p, (form y).value? = some p → |q - n| ≤ |p - n|

section

variable {n unit p : ℚ} {m : Nat}

/-- Of the multiples of a unit, there is one within half of it. -/
theorem nearest_multiple (hunit : 0 < unit) (hnear : |m * unit - n| ≤ unit / 2) (k : Nat) :
    |m * unit - n| ≤ |k * unit - n| := by
  by_cases hk : k = m
  · rw [hk]
  · have hapart : unit ≤ |k * unit - m * unit| := by
      have hone : (1 : ℚ) ≤ |(k : ℚ) - m| := by
        have hint : (1 : Int) ≤ |(k : Int) - m| := Int.one_le_abs (by omega)
        exact_mod_cast hint
      rw [← sub_mul, abs_mul, abs_of_pos hunit]
      nlinarith
    have htriangle := abs_sub_le (k * unit) n (m * unit)
    rw [abs_sub_comm n] at htriangle
    linarith

/-- Numbers with more places are less than those that a unit is for. -/
theorem nearest_below (hunit : 0 < unit) (hnear : |m * unit - n| ≤ unit / 2)
    (hm : 2 ^ 52 ≤ m) (hn : 2 ^ 52 * unit ≤ n) (hp : p ≤ 2 ^ 52 * unit) :
    |m * unit - n| ≤ |p - n| := by
  rw [abs_le] at hnear
  have hdistance : n - p ≤ |p - n| := by
    rw [abs_sub_comm]
    exact le_abs_self _
  refine le_trans ?_ hdistance
  rw [abs_le]
  rcases Nat.eq_or_lt_of_le hm with hm | hm
  · have hm : (m : ℚ) = 2 ^ 52 := by exact_mod_cast hm.symm
    rw [hm] at hnear ⊢
    constructor <;> linarith
  · have hm : (2 : ℚ) ^ 52 + 1 ≤ m := by exact_mod_cast hm
    have hmore : (2 ^ 52 + 1) * unit ≤ m * unit := mul_le_mul_of_nonneg_right hm hunit.le
    constructor <;> linarith

end

/-- A multiple of the unit, or less than what the unit is for. -/
theorem magnitude_cases {m : Nat} {e : Int} {shift : Nat} (hm : m < 2 ^ 53) :
    (∃ k : Nat, magnitude m e = k * 2 ^ shift) ∨ magnitude m e ≤ 2 ^ 52 * 2 ^ shift := by
  unfold magnitude
  by_cases he : (shift : Int) ≤ e
  · obtain ⟨more, rfl⟩ := Int.le.dest he
    refine .inl ⟨m * 2 ^ more, ?_⟩
    rw [zpow_add₀ two_ne_zero, zpow_natCast, zpow_natCast]
    push_cast
    ring
  · have hpow : (2 : ℚ) ^ e ≤ 2 ^ ((shift : Int) - 1) :=
      zpow_le_zpow_right₀ one_le_two (by omega)
    have hhalf : (2 : ℚ) ^ ((shift : Int) - 1) * 2 = 2 ^ shift := by
      rw [zpow_sub_one₀ two_ne_zero, zpow_natCast]
      ring
    have hm : (m : ℚ) ≤ 2 ^ 53 := by exact_mod_cast hm.le
    have hpos : (0 : ℚ) ≤ 2 ^ e := by positivity
    refine .inr ?_
    nlinarith

theorem nearest_magnitude {n m carry shift m' : Nat} {e' : Int} (hlog : n.log2 = 52 + shift)
    (hm : 2 ^ 52 ≤ m) (hle : 2 * (m * 2 ^ carry * 2 ^ shift) ≤ 2 * n + 2 ^ shift)
    (hge : 2 * n ≤ 2 * (m * 2 ^ carry * 2 ^ shift) + 2 ^ shift) (hm' : m' < 2 ^ 53)
    (negative : Bool) :
    |magnitude m (shift + carry : Nat) - n| ≤
      |(if negative then -magnitude m' e' else magnitude m' e') - n| := by
  have hvalue : magnitude m (shift + carry : Nat) = (m * 2 ^ carry : Nat) * 2 ^ shift := by
    rw [magnitude, zpow_natCast, pow_add]
    push_cast
    ring
  have hnear : |(m * 2 ^ carry : Nat) * (2 : ℚ) ^ shift - n| ≤ 2 ^ shift / 2 := by
    have hle : 2 * ((m * 2 ^ carry : Nat) * (2 : ℚ) ^ shift) ≤ 2 * n + 2 ^ shift := by
      exact_mod_cast hle
    have hge : 2 * (n : ℚ) ≤ 2 * ((m * 2 ^ carry : Nat) * (2 : ℚ) ^ shift) + 2 ^ shift := by
      exact_mod_cast hge
    rw [abs_le]
    constructor <;> linarith
  have hunit : (0 : ℚ) < 2 ^ shift := by positivity
  have hm : 2 ^ 52 ≤ m * 2 ^ carry :=
    Nat.le_trans hm (Nat.le_mul_of_pos_right m (Nat.two_pow_pos carry))
  have hn : (2 : ℚ) ^ 52 * 2 ^ shift ≤ n := by
    have hne : n ≠ 0 := by
      rintro rfl
      simp at hlog
      omega
    have hself := Nat.log2_self_le hne
    rw [hlog, Nat.pow_add] at hself
    exact_mod_cast hself
  rw [hvalue]
  cases negative with
  | true =>
    refine nearest_below hunit hnear hm hn ?_
    have hnonneg := magnitude_nonneg m' e'
    simp only [if_true]
    have : (0 : ℚ) ≤ 2 ^ 52 * 2 ^ shift := by positivity
    linarith
  | false =>
    rcases @magnitude_cases m' e' shift hm' with ⟨k, hk⟩ | hbelow
    · simp only [Bool.false_eq_true, if_false, hk]
      exact nearest_multiple hunit hnear k
    · exact nearest_below hunit hnear hm hn hbelow

/-- Integers become the nearest double. -/
theorem nearest_ofInt {n : Int} (hmin : 2 ^ 53 ≤ n.natAbs) (hmax : n.natAbs < 2 ^ 64) :
    Nearest (Float.ofInt n) n := by
  obtain ⟨m, carry, shift, hform, hlog, -, hm, hle, hge⟩ := form_ofInt_large hmin hmax
  refine ⟨_, by rw [hform]; rfl, fun y p hp => ?_⟩
  cases hy : form y with
  | nan | infinite => exact nomatch hy ▸ hp
  | finite negative m' e' =>
    have hm' := form_mantissa_lt hy
    rw [hy] at hp
    obtain rfl := Option.some.inj hp
    have hnearest := @nearest_magnitude _ _ _ _ m' e' hlog hm hle hge hm'
    by_cases hn : n < 0
    -- below zero, all signs are the other way round
    · have habs : (n : ℚ) = -(n.natAbs : ℚ) := by
        have hint : n = -(n.natAbs : Int) := by omega
        rw [← Int.cast_natCast, ← Int.cast_neg, ← hint]
      have hflip (q : ℚ) : |-q - -(n.natAbs : ℚ)| = |q - n.natAbs| := by
        rw [← neg_sub', abs_neg]
      have hother : (if negative then -magnitude m' e' else magnitude m' e') =
          -(if !negative then -magnitude m' e' else magnitude m' e') := by
        cases negative <;> simp
      rw [decide_eq_true hn, if_pos rfl, habs, hother, hflip, hflip]
      exact hnearest (!negative)
    · have habs : (n : ℚ) = (n.natAbs : ℚ) := by
        have hint : n = (n.natAbs : Int) := by omega
        rw [← Int.cast_natCast, ← hint]
      rw [decide_eq_false hn, if_neg Bool.false_ne_true, habs]
      exact hnearest negative

end ScriptHost.Number
