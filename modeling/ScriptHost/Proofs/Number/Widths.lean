import Mathlib
import ScriptHost.Proofs.Number.Integers

/-!
How long the text of a number can be. The digits that are found for a double stand at the first
place, from above, at which some lie within its interval, so there are few of them.
-/

namespace ScriptHost

/-- Every character is a single byte. -/
def Narrow (chars : List Char) : Prop :=
  ∀ c ∈ chars, c.utf8Size = 1

namespace Narrow

variable {chars : List Char}

theorem utf8ByteSize (h : Narrow chars) : (String.ofList chars).utf8ByteSize = chars.length := by
  induction chars with
  | nil => rfl
  | cons c rest ih =>
    have hrest := ih fun d hd => h d (List.mem_cons_of_mem c hd)
    have hfirst := h c List.mem_cons_self
    have hsplit : (String.ofList (c :: rest)).utf8ByteSize =
        c.utf8Size + (String.ofList rest).utf8ByteSize := by simp
    rw [hsplit, hrest, hfirst, List.length_cons, Nat.add_comm]

theorem take (h : Narrow chars) (n : Nat) : Narrow (chars.take n) :=
  fun c hc => h c (List.mem_of_mem_take hc)

theorem drop (h : Narrow chars) (n : Nat) : Narrow (chars.drop n) :=
  fun c hc => h c (List.mem_of_mem_drop hc)

theorem toDigits (n : Nat) : Narrow (Nat.toDigits 10 n) := by
  intro c hc
  have hdigit := Nat.isDigit_of_mem_toDigits (by decide) (by decide) hc
  simp only [Char.isDigit, Bool.and_eq_true, decide_eq_true_eq] at hdigit
  exact Char.utf8Size_eq_one_iff.2 (UInt32.le_trans hdigit.2 (by decide))

end Narrow

namespace Number

variable {i : Interval} {tie : Tie} {place : Int} {d : Decimal} {m tries : Nat} {e : Int}

/-! ## The interval of a double -/

theorem form_bounds {x : Float} {negative : Bool} (hx : form x = .finite negative m e) :
    m < 2 ^ 53 ∧ -1074 ≤ e ∧ e ≤ 971 := by
  have hm := form_mantissa_lt hx
  have hbiased : ((x.toBits >>> 52) &&& 0x7ff).toNat < 2 ^ 11 := by
    rw [← toNat_unpackExponent]
    exact BitVec.isLt _
  refine ⟨hm, ?_⟩
  unfold form at hx
  dsimp only at hx
  split at hx
  · split at hx <;> exact nomatch hx
  · split at hx
    · obtain ⟨-, -, rfl⟩ := Form.finite.inj hx
      omega
    · obtain ⟨-, -, rfl⟩ := Form.finite.inj hx
      omega

theorem zpow_mul_pow_toNat {a : Nat} (ha : 0 < a) (z : Int) :
    (a : ℚ) ^ z * (a ^ (-z).toNat : Nat) = (a ^ z.toNat : Nat) := by
  have ha' : (a : ℚ) ≠ 0 := Nat.cast_ne_zero.2 (Nat.ne_of_gt ha)
  cases z with
  | ofNat n => simp
  | negSucc n =>
    simp only [Int.neg_negSucc, Int.toNat_natCast, Int.toNat_negSucc, zpow_negSucc]
    push_cast
    rw [inv_mul_cancel₀ (pow_ne_zero _ ha'), pow_zero]

namespace Interval

theorem scales_pos (i : Interval) (place : Int) :
    0 < (i.scales place).1 ∧ 0 < (i.scales place).2 := by
  have hten (n : Nat) : 0 < tens n := Nat.pow_pos (by decide)
  simp only [scales, Nat.shiftLeft_eq]
  exact ⟨Nat.mul_pos (hten _) (Nat.two_pow_pos _), Nat.mul_pos (hten _) (Nat.two_pow_pos _)⟩

/-- The factors stand in the ratio of ten to the place and two to the exponent. -/
theorem scales_ratio (i : Interval) (place : Int) :
    ((i.scales place).1 : ℚ) * 2 ^ i.exponent = (i.scales place).2 * 10 ^ place := by
  have htwo := zpow_mul_pow_toNat (a := 2) (by decide) i.exponent
  have hten := zpow_mul_pow_toNat (a := 10) (by decide) place
  simp only [scales, tens, Nat.shiftLeft_eq, Nat.pow_eq]
  push_cast at htwo hten ⊢
  rw [mul_assoc, mul_comm (2 ^ _ : ℚ), htwo, mul_right_comm, mul_comm (10 ^ (-place).toNat : ℚ),
    hten]

theorem scales_le_iff (i : Interval) (place : Int) (a b : Nat) :
    (a * (i.scales place).1 ≤ b * (i.scales place).2 ↔
        (a * 10 ^ place : ℚ) ≤ b * 2 ^ i.exponent) ∧
      (b * (i.scales place).2 ≤ a * (i.scales place).1 ↔
        (b * 2 ^ i.exponent : ℚ) ≤ a * 10 ^ place) := by
  have hratio := i.scales_ratio place
  have hscale : (0 : ℚ) < (i.scales place).2 := Nat.cast_pos.2 (i.scales_pos place).2
  have htwo : (0 : ℚ) < 2 ^ i.exponent := by positivity
  generalize (i.scales place).1 = unit, (i.scales place).2 = scale at *
  have hleft : (a * unit : ℚ) * 2 ^ i.exponent = scale * (a * 10 ^ place) := by
    rw [mul_assoc, hratio, mul_left_comm]
  have hright : (b * scale : ℚ) * 2 ^ i.exponent = scale * (b * 2 ^ i.exponent) := by
    rw [mul_comm (b : ℚ), mul_assoc]
  constructor
  · calc a * unit ≤ b * scale ↔ (a * unit : ℚ) ≤ b * scale := by norm_cast
      _ ↔ (a * unit : ℚ) * 2 ^ i.exponent ≤ b * scale * 2 ^ i.exponent :=
          (mul_le_mul_iff_left₀ htwo).symm
      _ ↔ (a * 10 ^ place : ℚ) ≤ b * 2 ^ i.exponent := by
          rw [hleft, hright, mul_le_mul_iff_right₀ hscale]
  · calc b * scale ≤ a * unit ↔ (b * scale : ℚ) ≤ a * unit := by norm_cast
      _ ↔ (b * scale : ℚ) * 2 ^ i.exponent ≤ a * unit * 2 ^ i.exponent :=
          (mul_le_mul_iff_left₀ htwo).symm
      _ ↔ (b * 2 ^ i.exponent : ℚ) ≤ a * 10 ^ place := by
          rw [hleft, hright, mul_le_mul_iff_right₀ hscale]

theorem le_of_holds {unit scale digits : Nat} (h : i.holds unit scale digits = true) :
    i.low * scale ≤ digits * unit ∧ digits * unit ≤ i.high * scale := by
  unfold holds at h
  split at h
  · simpa using h
  · have hlt : i.low * scale < digits * unit ∧ digits * unit < i.high * scale := by simpa using h
    exact ⟨Nat.le_of_lt hlt.1, Nat.le_of_lt hlt.2⟩

theorem outside_of_not_holds {unit scale digits : Nat} (h : i.holds unit scale digits = false) :
    digits * unit ≤ i.low * scale ∨ i.high * scale ≤ digits * unit := by
  unfold holds at h
  split at h <;> simp only [Bool.and_eq_false_iff, decide_eq_false_iff_not] at h <;> omega

theorem holds_of_onGrid {digits : Nat} (h : i.onGrid tie place = some digits) :
    i.holds (i.scales place).1 (i.scales place).2 digits = true := by
  unfold onGrid at h
  dsimp only at h
  grind

theorem onGrid_eq_none (h : i.onGrid tie place = none) :
    let below := i.middle * (i.scales place).2 / (i.scales place).1
    i.holds (i.scales place).1 (i.scales place).2 below = false ∧
      i.holds (i.scales place).1 (i.scales place).2 (below + 1) = false := by
  unfold onGrid at h
  dsimp only at h ⊢
  grind

/-- A multiple lies in the interval once they are closer together than its ends are apart. -/
theorem coarse_of_onGrid_eq_none (hlow : i.low < i.middle) (hhigh : i.middle < i.high)
    (hwide : i.low + 3 ≤ i.high) (h : i.onGrid tie place = none) :
    (3 * 2 ^ i.exponent : ℚ) ≤ 10 ^ place := by
  obtain ⟨hbelow, habove⟩ := onGrid_eq_none h
  obtain ⟨hunit, hscale⟩ := i.scales_pos place
  have hcoarse : 3 * (i.scales place).2 ≤ 1 * (i.scales place).1 := by
    generalize (i.scales place).1 = unit, (i.scales place).2 = scale at *
    have hlast := Nat.div_mul_le_self (i.middle * scale) unit
    have hnext := Nat.lt_div_mul_add (a := i.middle * scale) hunit
    have hbelow := outside_of_not_holds hbelow
    have habove := outside_of_not_holds habove
    rw [Nat.succ_mul] at habove
    have hlow := Nat.mul_lt_mul_of_pos_right hlow hscale
    have hhigh := Nat.mul_lt_mul_of_pos_right hhigh hscale
    have hwide := Nat.mul_le_mul_right scale hwide
    rw [Nat.add_mul] at hwide
    omega
  simpa using (i.scales_le_iff place 1 3).2.1 hcoarse

theorem digits_pos_of_onGrid {digits : Nat} (hlow : 0 < i.low)
    (h : i.onGrid tie place = some digits) : 0 < digits := by
  refine Nat.pos_of_ne_zero fun hzero => ?_
  have hle := (le_of_holds (holds_of_onGrid h)).1
  rw [hzero, Nat.zero_mul, Nat.le_zero] at hle
  exact absurd hle (Nat.ne_of_gt (Nat.mul_pos hlow (i.scales_pos place).2))

theorem digits_le_of_onGrid {digits : Nat} (h : i.onGrid tie place = some digits) :
    (digits * 10 ^ place : ℚ) ≤ i.high * 2 ^ i.exponent :=
  (i.scales_le_iff place digits i.high).1.1 (le_of_holds (holds_of_onGrid h)).2

/-- The search ends at the first place from above at which there are digits. -/
theorem search_spec (h : i.search tie tries place = some d) :
    i.onGrid tie d.exponent = some d.digits ∧ d.exponent ≤ place ∧
      (d.exponent = place ∨ i.onGrid tie (d.exponent + 1) = none) := by
  induction tries generalizing place with
  | zero => exact nomatch h
  | succ tries ih =>
    rw [search] at h
    split at h
    · next digits hdigits =>
      obtain rfl := Option.some.inj h
      exact ⟨hdigits, Int.le_refl _, .inl rfl⟩
    · next hnone =>
      obtain ⟨hfound, hle, hfirst⟩ := ih h
      refine ⟨hfound, by omega, .inr ?_⟩
      rcases hfirst with heq | hnone'
      · rw [heq, Int.sub_add_cancel, hnone]
      · exact hnone'

theorem search_isSome {k : Nat} (hk : k < tries)
    (h : (i.onGrid tie (place - k)).isSome) : (i.search tie tries place).isSome := by
  induction tries generalizing place k with
  | zero => exact absurd hk (Nat.not_lt_zero k)
  | succ tries ih =>
    rw [search]
    split
    · rfl
    · next hnone =>
      cases k with
      | zero => simp [hnone] at h
      | succ k =>
        refine ih (Nat.lt_of_succ_lt_succ hk) ?_
        rw [Int.sub_sub, Int.add_comm 1]
        exact_mod_cast h

end Interval

/-! ## The digits of a double -/

theorem interval_bounds (hm : 0 < m) (e : Int) :
    let i := Interval.ofBinary m e
    0 < i.low ∧ i.low < i.middle ∧ i.middle < i.high ∧ i.low + 3 ≤ i.high ∧
      i.high = 4 * m + 2 ∧ i.exponent = e - 2 := by
  intro i
  have hlow : i.low = 4 * m - 1 ∨ i.low = 4 * m - 2 := by
    simp only [i, Interval.ofBinary]
    split <;> simp
  have hmiddle : i.middle = 4 * m := rfl
  have hhigh : i.high = 4 * m + 2 := rfl
  exact ⟨by omega, by omega, by omega, by omega, hhigh, rfl⟩

/-- The places that the search begins and ends with, against the distance of two doubles. -/
theorem places_around (k : Nat) (hk : k < 2046) :
    let i : Interval := ⟨0, 0, 0, false, (k : Int) - 1076⟩
    let last := i.scales (((k : Int) - 1022) * 30103 / 100000 - 19)
    let above := i.scales (((k : Int) - 1074) * 30103 / 100000 + 3)
    last.1 < 3 * last.2 ∧ 3 * above.2 ≤ above.1 := by
  revert k
  decide +kernel

/-- The distance of two doubles takes at most one digit more than there are. -/
theorem exists_found (hm : 0 < m) (hm' : m < 2 ^ 53) (he : -1074 ≤ e) (he' : e ≤ 971) (tie : Tie) :
    let i := Interval.ofBinary m e
    ∃ d, i.search tie 22 (placeAbove m e) = some d ∧ i.onGrid tie d.exponent = some d.digits ∧
      (3 * 2 ^ i.exponent : ℚ) ≤ 10 ^ (d.exponent + 1) := by
  intro i
  obtain ⟨-, hlow, hhigh, hwide, -, hexponent⟩ := interval_bounds hm e
  obtain ⟨k, hk⟩ := Int.eq_ofNat_of_zero_le (show 0 ≤ e + 1074 by omega)
  have haround := places_around k (by omega)
  have hscales (place : Int) :
      (⟨0, 0, 0, false, (k : Int) - 1076⟩ : Interval).scales place = i.scales place := by
    simp only [Interval.scales, i, hexponent, show (k : Int) - 1076 = e - 2 by omega]
  simp only [hscales] at haround
  obtain ⟨hlast, habove⟩ := haround
  have hlog : m.log2 < 53 := (Nat.log2_lt (Nat.ne_of_gt hm)).2 hm'
  obtain ⟨j, hj⟩ := Int.eq_ofNat_of_zero_le
    (show 0 ≤ placeAbove m e - (((k : Int) - 1022) * 30103 / 100000 - 19) by
      unfold placeAbove
      omega)
  have hmissed (place : Int) (hnone : i.onGrid tie place = none) :
      (3 * 2 ^ i.exponent : ℚ) ≤ 10 ^ place :=
    Interval.coarse_of_onGrid_eq_none hlow hhigh hwide hnone
  -- the last place tried is a hit, so the search ends with digits
  have hhit : (i.onGrid tie (placeAbove m e - j)).isSome := by
    rw [show placeAbove m e - j = ((k : Int) - 1022) * 30103 / 100000 - 19 by omega,
      Option.isSome_iff_ne_none]
    intro hnone
    have hcoarse := (i.scales_le_iff _ 1 3).2.2 (by simpa using hmissed _ hnone)
    omega
  have hj' : j < 22 := by unfold placeAbove at hj; omega
  obtain ⟨d, hd⟩ := Option.isSome_iff_exists.1 (Interval.search_isSome hj' hhit)
  obtain ⟨hfound, -, hfirst⟩ := Interval.search_spec hd
  refine ⟨d, hd, hfound, ?_⟩
  rcases hfirst with heq | hnone
  · have habove := (i.scales_le_iff _ 1 3).2.1 (by rwa [Nat.one_mul])
    simp only [Nat.cast_one, one_mul, Nat.cast_ofNat] at habove
    refine habove.trans ((zpow_le_zpow_iff_right₀ (by norm_num)).2 ?_)
    rw [heq, placeAbove]
    omega
  · exact hmissed _ hnone

/-- Few digits, none of them far behind the point, and no large number. -/
structure Decimal.Short (d : Decimal) : Prop where
  positive : 0 < d.digits
  digits : d.digits < 10 ^ 18
  exponent : -324 ≤ d.exponent
  value : (d.digits * 10 ^ d.exponent : ℚ) < (10 ^ 309 : Nat)

theorem least_place (he : -1076 ≤ e) (h : (3 * 2 ^ e : ℚ) ≤ 10 ^ (place + 1)) : -324 ≤ place := by
  have hleast : (10 : ℚ) ^ (-324 : Int) < 3 * 2 ^ (-1076 : Int) := by
    have hnat : 2 ^ 1076 < 3 * 10 ^ 324 := by decide +kernel
    have hrat : (2 ^ 1076 : ℚ) < 3 * 10 ^ 324 := by exact_mod_cast hnat
    rw [show (10 : ℚ) ^ (-324 : Int) = (10 ^ 324)⁻¹ from zpow_neg _ 324,
      show (2 : ℚ) ^ (-1076 : Int) = (2 ^ 1076)⁻¹ from zpow_neg _ 1076, ← div_eq_mul_inv,
      inv_lt_comm₀ (by positivity) (by positivity), inv_div, div_lt_iff₀ (by norm_num)]
    rwa [mul_comm] at hrat
  have hlt : (10 : ℚ) ^ (-324 : Int) < 10 ^ (place + 1) := by
    calc (10 : ℚ) ^ (-324 : Int) < 3 * 2 ^ (-1076 : Int) := hleast
      _ ≤ 3 * 2 ^ e := by
        gcongr
        norm_num
      _ ≤ 10 ^ (place + 1) := h
  have := (zpow_lt_zpow_iff_right₀ (by norm_num)).1 hlt
  omega

theorem found_short (hm : 0 < m) (hm' : m < 2 ^ 53) (he : -1074 ≤ e) (he' : e ≤ 971) (tie : Tie) :
    ∃ d, (Interval.ofBinary m e).search tie 22 (placeAbove m e) = some d ∧ d.Short := by
  obtain ⟨hlow, -, -, -, hhigh, hexponent⟩ := interval_bounds hm e
  obtain ⟨d, hd, hfound, hcoarse⟩ := exists_found hm hm' he he' tie
  have hpositive := Interval.digits_pos_of_onGrid hlow hfound
  have hvalue := Interval.digits_le_of_onGrid hfound
  rw [hhigh, hexponent] at hvalue
  rw [hexponent] at hcoarse
  have hten : (0 : ℚ) < 10 ^ d.exponent := by positivity
  refine ⟨d, hd, hpositive, ?_, least_place (by omega) hcoarse, ?_⟩
  · have hfew : (3 * d.digits : ℚ) ≤ (4 * m + 2 : Nat) * 10 := by
      refine le_of_mul_le_mul_right ?_ hten
      calc (3 * d.digits * 10 ^ d.exponent : ℚ) = 3 * (d.digits * 10 ^ d.exponent) := by ring
        _ ≤ 3 * ((4 * m + 2 : Nat) * 2 ^ (e - 2)) := by gcongr
        _ = (4 * m + 2 : Nat) * (3 * 2 ^ (e - 2)) := by ring
        _ ≤ (4 * m + 2 : Nat) * 10 ^ (d.exponent + 1) := by gcongr
        _ = (4 * m + 2 : Nat) * 10 * 10 ^ d.exponent := by
          rw [zpow_add_one₀ (by norm_num)]
          ring
    have hfew : 3 * d.digits ≤ (4 * m + 2) * 10 := by exact_mod_cast hfew
    omega
  · calc (d.digits * 10 ^ d.exponent : ℚ) ≤ (4 * m + 2 : Nat) * 2 ^ (e - 2) := hvalue
      _ ≤ (2 ^ 55 : Nat) * 2 ^ (969 : Int) := by
        gcongr
        · omega
        · norm_num
        · omega
      _ = (2 ^ 1024 : Nat) := by
        simp only [Nat.cast_pow, Nat.cast_ofNat, ← zpow_natCast, ← zpow_add₀ (two_ne_zero (α := ℚ))]
        congr 1
      _ < (10 ^ 309 : Nat) := Nat.cast_lt.2 (by decide +kernel)

theorem Decimal.Short.trim (h : d.Short) (tries : Nat) : (d.trim tries).Short := by
  induction tries generalizing d with
  | zero => exact h
  | succ tries ih =>
    rw [Decimal.trim]
    split
    · next hzero =>
      have hsplit : d.digits = d.digits / 10 * 10 := by omega
      have hdigits := h.digits
      have hexponent := h.exponent
      have hvalue := h.value
      refine ih ⟨?_, ?_, ?_, ?_⟩
      · dsimp only
        omega
      · dsimp only
        omega
      · dsimp only
        omega
      · rw [hsplit] at hvalue
        dsimp only
        rw [zpow_add_one₀ (by norm_num), mul_comm _ (10 : ℚ), ← mul_assoc]
        exact_mod_cast hvalue
    · exact h

theorem shortest_short (hm : 0 < m) (hm' : m < 2 ^ 53) (he : -1074 ≤ e) (he' : e ≤ 971)
    (tie : Tie) : (shortest tie m e).Short := by
  obtain ⟨d, hd, hshort⟩ := found_short hm hm' he he' tie
  unfold shortest
  dsimp only
  rw [hd]
  exact hshort.trim 22

/-! ## Texts -/

theorem utf8ByteSize_zeros (n : Nat) : (zeros n).utf8ByteSize = n := by
  have hnarrow : Narrow (List.replicate n '0') := fun c hc => List.eq_of_mem_replicate hc ▸ rfl
  rw [zeros, hnarrow.utf8ByteSize, List.length_replicate]

theorem Decimal.Short.positional (h : d.Short) :
    (positionalText (Nat.toDigits 10 d.digits) d.exponent false).utf8ByteSize ≤ 326 := by
  have hnarrow := Narrow.toDigits d.digits
  have hlength : (Nat.toDigits 10 d.digits).length ≤ 18 :=
    Nat.toDigits_length 10 _ 18 (by decide) h.digits
  have hexponent := h.exponent
  have hvalue := h.value
  unfold positionalText
  generalize d.exponent = exponent at *
  cases exponent with
  | ofNat n =>
    have hlarge : d.digits * 10 ^ n < 10 ^ 309 := by
      rw [Int.ofNat_eq_natCast, zpow_natCast] at hvalue
      refine Nat.cast_lt.1 (lt_of_eq_of_lt ?_ hvalue)
      rw [Nat.cast_mul, Nat.cast_pow, Nat.cast_ofNat]
    have hleast := Nat.le_mul_of_pos_left (10 ^ n) h.positive
    have hn : n < 309 := (pow_lt_pow_iff_right₀ (by decide)).1 (hleast.trans_lt hlarge)
    have hfew : (Nat.toDigits 10 d.digits).length ≤ 309 - n := by
      refine Nat.toDigits_length 10 _ _ (by omega) ?_
      refine Nat.lt_of_mul_lt_mul_right (a := 10 ^ n) ?_
      rwa [← pow_add, Nat.sub_add_cancel (Nat.le_of_lt hn)]
    simp only [String.utf8ByteSize_append, hnarrow.utf8ByteSize, utf8ByteSize_zeros,
      Bool.false_eq_true, if_false]
    have hnone : "".utf8ByteSize = 0 := rfl
    omega
  | negSucc n =>
    dsimp only
    split
    · simp only [String.utf8ByteSize_append, (hnarrow.take _).utf8ByteSize,
        (hnarrow.drop _).utf8ByteSize, List.length_take, List.length_drop]
      have hpoint : ".".utf8ByteSize = 1 := rfl
      omega
    · simp only [String.utf8ByteSize_append, hnarrow.utf8ByteSize, utf8ByteSize_zeros]
      have hpoint : "0.".utf8ByteSize = 2 := rfl
      omega

theorem utf8ByteSize_sign (negative : Bool) (text : String) :
    (Layout.sign negative text).utf8ByteSize ≤ text.utf8ByteSize + 1 := by
  cases negative with
  | false => exact Nat.le_succ _
  | true =>
    have hsign : "-".utf8ByteSize = 1 := rfl
    simp only [Layout.sign, if_true, String.utf8ByteSize_append, hsign]
    omega

theorem utf8ByteSize_print (x : Float) : (Layout.script.print x).utf8ByteSize ≤ 327 := by
  unfold Layout.print
  split
  · decide
  · exact (utf8ByteSize_sign _ _).trans (by decide)
  · next negative m e hx =>
    obtain ⟨hm, he, he'⟩ := form_bounds hx
    split
    · exact (utf8ByteSize_sign _ _).trans (by decide)
    · next hzero =>
      have hshort := shortest_short (Nat.pos_of_ne_zero hzero) hm he he' Layout.script.tie
      exact (utf8ByteSize_sign _ _).trans (Nat.succ_le_succ hshort.positional)

/-- The longest are those of the least doubles below zero. -/
theorem utf8ByteSize_text (x : Float) : (text x).utf8ByteSize ≤ 327 := by
  unfold text
  split
  · next n hn =>
    obtain ⟨-, hsmall⟩ := smallInteger?_eq_some.1 hn
    have hnat (k : Nat) (hk : k ≤ safeInteger) : k.repr.utf8ByteSize ≤ 16 := by
      rw [Nat.repr_eq_ofList_toDigits, (Narrow.toDigits k).utf8ByteSize]
      exact Nat.toDigits_length 10 k 16 (by decide) (Nat.lt_of_le_of_lt hk (by decide))
    cases n with
    | ofNat k => exact (hnat k hsmall).trans (by decide)
    | negSucc k =>
      have hsign : "-".utf8ByteSize = 1 := rfl
      have hdigits := hnat (k + 1) hsmall
      change ("-" ++ (k + 1).repr).utf8ByteSize ≤ 327
      rw [String.utf8ByteSize_append]
      omega
  · exact utf8ByteSize_print x

end Number

end ScriptHost
