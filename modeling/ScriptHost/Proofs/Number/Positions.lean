import ScriptHost.Number.Reading
import ScriptHost.Proofs.Number.Widths

/-!
The numbers whose text is a position. These are the positions themselves and large integers: the
digits of no fraction make up an integer, since no integer is as near to it as its digits are.
-/

namespace ScriptHost.Number

variable {x : Float} {n m tries : Nat} {e : Int} {d : Decimal} {s : String} {cs : List Char}

/-! ## Digits -/

theorem digitsValue_eq (cs : List Char) : digitsValue cs = Nat.ofDigitChars 10 cs 0 := rfl

theorem digitsValue_toDigits (n : Nat) : digitsValue (Nat.toDigits 10 n) = n := by
  rw [digitsValue_eq, Nat.ofDigitChars_ten_toDigits]

theorem digitsValue_zeros (n count : Nat) :
    digitsValue (Nat.toDigits 10 n ++ List.replicate count '0') = n * 10 ^ count := by
  rw [digitsValue_eq, Nat.ofDigitChars_append, Nat.ofDigitChars_ten_toDigits,
    Nat.ofDigitChars_replicate_zero, Nat.mul_comm]

theorem isDigit_toDigits (n : Nat) : ∀ c ∈ Nat.toDigits 10 n, c.isDigit = true :=
  fun _ hc => Nat.isDigit_of_mem_toDigits (by decide) (by decide) hc

def afterPlus : List Char → List Char
  | '+' :: rest => rest
  | cs => cs

theorem readPosition?_eq (s : String) :
    readPosition? s =
      if afterPlus s.toList ≠ [] ∧ (afterPlus s.toList).all Char.isDigit ∧
        digitsValue (afterPlus s.toList) < UInt64.size
      then some (digitsValue (afterPlus s.toList)) else none := by
  have hread : readPosition? s =
      let digits := afterPlus s.toList
      if digits.isEmpty || !digits.all Char.isDigit then none
      else if digitsValue digits < UInt64.size then some (digitsValue digits) else none := rfl
  rw [hread]
  generalize afterPlus s.toList = digits
  cases hall : digits.all Char.isDigit <;> cases hsome : digits.isEmpty <;> simp_all

theorem mem_afterPlus {c : Char} (hc : c ∈ cs) (hplus : c ≠ '+') : c ∈ afterPlus cs := by
  unfold afterPlus
  split
  · exact (List.mem_cons.1 hc).resolve_left hplus
  · exact hc

theorem afterPlus_digits (hdigits : ∀ c ∈ cs, c.isDigit = true) : afterPlus cs = cs := by
  unfold afterPlus
  split
  · exact absurd (hdigits '+' List.mem_cons_self) (by decide)
  · rfl

theorem readPosition?_digits (hsome : cs ≠ []) (hdigits : ∀ c ∈ cs, c.isDigit = true) :
    readPosition? (String.ofList cs) =
      if digitsValue cs < UInt64.size then some (digitsValue cs) else none := by
  have hall : cs.all Char.isDigit = true := List.all_eq_true.2 hdigits
  rw [readPosition?_eq, String.toList_ofList, afterPlus_digits hdigits, hall]
  simp [hsome]

theorem readPosition?_stray {c : Char} (hc : c ∈ s.toList) (hplus : c ≠ '+')
    (hdigit : c.isDigit = false) : readPosition? s = none := by
  rw [readPosition?_eq, if_neg]
  rintro ⟨-, hall, -⟩
  have hc := List.all_eq_true.1 hall c (mem_afterPlus hc hplus)
  simp [hdigit] at hc

theorem readPosition?_repr (n : Nat) :
    readPosition? n.repr = if n < UInt64.size then some n else none := by
  rw [Nat.repr_eq_ofList_toDigits, readPosition?_digits Nat.toDigits_ne_nil (isDigit_toDigits n),
    digitsValue_toDigits]

theorem readPosition?_positional
    (h : readPosition? (positionalText (Nat.toDigits 10 m) e false) = some n) :
    (m * 10 ^ e : ℚ) = n := by
  unfold positionalText at h
  cases e with
  | ofNat count =>
      have htext : String.ofList (Nat.toDigits 10 m) ++ zeros count ++ "" =
          String.ofList (Nat.toDigits 10 m ++ List.replicate count '0') := by
        simp [zeros]
      simp only [Bool.false_eq_true, if_false, htext] at h
      rw [readPosition?_digits (by simp) ?_, digitsValue_zeros] at h
      · split at h
        · obtain rfl := Option.some.inj h
          simp
        · cases h
      · intro c hc
        rcases List.mem_append.1 hc with hc | hc
        · exact isDigit_toDigits m c hc
        · rw [List.eq_of_mem_replicate hc]
          rfl
  | negSucc count =>
      dsimp only at h
      rw [readPosition?_stray (c := '.') ?_ (by decide) (by decide)] at h
      · cases h
      · split <;> simp

/-! ## The shortest digits -/

def Decimal.value (d : Decimal) : ℚ :=
  d.digits * 10 ^ d.exponent

theorem Decimal.value_trim (d : Decimal) (tries : Nat) : (d.trim tries).value = d.value := by
  induction tries generalizing d with
  | zero => rfl
  | succ tries ih =>
      rw [Decimal.trim]
      split
      · next hzero =>
        have hsplit : (d.digits : ℚ) = (d.digits / 10 : Nat) * 10 := by
          exact_mod_cast (Nat.div_mul_cancel (Nat.dvd_of_mod_eq_zero hzero.2)).symm
        rw [ih, value, value, hsplit, zpow_add_one₀ (by norm_num)]
        ring
      · rfl

/-- The digits stand for a number that is within half the distance of two doubles. -/
theorem shortest_near (hm : 0 < m) (hm' : m < 2 ^ 53) (he : -1074 ≤ e) (he' : e ≤ 971)
    (tie : Tie) : |(shortest tie m e).value - magnitude m e| ≤ 2 ^ e / 2 := by
  obtain ⟨d, hd, hfound, -⟩ := exists_found hm hm' he he' tie
  have hvalue : (shortest tie m e).value = d.value := by
    unfold shortest
    dsimp only
    rw [hd, Option.getD_some, Decimal.value_trim]
  obtain ⟨hlow, hhigh⟩ := Interval.le_of_holds (Interval.holds_of_onGrid hfound)
  have hlow := ((Interval.ofBinary m e).scales_le_iff _ _ _).2.1 hlow
  have hhigh := ((Interval.ofBinary m e).scales_le_iff _ _ _).1.1 hhigh
  have hleast : (4 * m - 2 : ℚ) ≤ (Interval.ofBinary m e).low := by
    have hnat : 4 * m ≤ (Interval.ofBinary m e).low + 2 := by
      simp only [Interval.ofBinary]
      split <;> omega
    have hrat : (4 * m : ℚ) ≤ (Interval.ofBinary m e).low + 2 := by exact_mod_cast hnat
    linarith
  have hquarter : (2 : ℚ) ^ e = 4 * 2 ^ (e - 2) := by
    rw [zpow_sub₀ two_ne_zero]
    norm_num
    ring
  have hunit : (0 : ℚ) < 2 ^ (e - 2) := by positivity
  change _ ≤ d.value at hlow
  change d.value ≤ ((4 * m + 2 : Nat) : ℚ) * 2 ^ (e - 2) at hhigh
  have hlow : (4 * m - 2 : ℚ) * 2 ^ (e - 2) ≤ d.value :=
    le_trans (mul_le_mul_of_nonneg_right hleast hunit.le) hlow
  push_cast at hhigh
  rw [hvalue, magnitude, hquarter, abs_le]
  constructor <;> linarith

/-- An integer that the digits make up is the double, unless that is an integer and almost as large. -/
theorem integer_of_shortest (hm : 0 < m) (hm' : m < 2 ^ 53) (he : -1074 ≤ e) (he' : e ≤ 971)
    {tie : Tie} (hn : (shortest tie m e).value = n) :
    ∃ k : Nat, magnitude m e = k ∧ (k = n ∨ k ≤ 2 * n) := by
  have hnear := shortest_near hm hm' he he' tie
  rw [hn, abs_le] at hnear
  have hpos : (1 : ℚ) ≤ m := by exact_mod_cast hm
  cases e with
  | ofNat shift =>
      refine ⟨m <<< shift, magnitude_natCast m shift, .inr ?_⟩
      have hk := magnitude_natCast m shift
      have hunit : (2 : ℚ) ^ (Int.ofNat shift) ≤ (m <<< shift : Nat) := by
        rw [← hk, magnitude]
        exact le_mul_of_one_le_left (by positivity) hpos
      rw [Int.ofNat_eq_natCast, hk] at hnear
      rw [Int.ofNat_eq_natCast] at hunit
      have hle : ((m <<< shift : Nat) : ℚ) ≤ (2 * n : Nat) := by
        push_cast
        linarith
      exact_mod_cast hle
  | negSucc shift =>
      have hunit : (2 : ℚ) ^ (Int.negSucc shift) * (1 <<< (shift + 1) : Nat) = 1 := by
        simpa [magnitude] using magnitude_negSucc 1 shift
      have hm := magnitude_negSucc m shift
      have hscale : (0 : ℚ) < (1 <<< (shift + 1) : Nat) := by
        rw [Nat.one_shiftLeft]
        positivity
      generalize (1 <<< (shift + 1) : Nat) = scale, (2 : ℚ) ^ (Int.negSucc shift) = unit at *
      have hbelow : (2 * m : ℚ) ≤ 2 * (n * scale) + 1 := by nlinarith
      have habove : 2 * (n * scale : ℚ) ≤ 2 * m + 1 := by nlinarith
      have hbelow : 2 * m ≤ 2 * (n * scale) + 1 := by exact_mod_cast hbelow
      have habove : 2 * (n * scale) ≤ 2 * m + 1 := by exact_mod_cast habove
      have hsame : m = n * scale := by omega
      refine ⟨n, mul_right_cancel₀ hscale.ne' ?_, .inl rfl⟩
      rw [hm, hsame, Nat.cast_mul]

/-! ## Positions -/

theorem position?_eq_some :
    position? x = some n ↔ integer? x = some (n : Int) ∧ n < UInt32.size - 1 := by
  unfold position?
  cases integer? x with
  | none => simp
  | some k =>
      cases k with
      | negSucc k => simp
      | ofNat k =>
          simp only [Int.ofNat_eq_natCast, Option.some.injEq, Nat.cast_inj]
          split
          · next hk =>
            rw [Option.some.injEq]
            exact ⟨fun h => ⟨h, h ▸ hk⟩, And.left⟩
          · next hk => exact ⟨nofun, fun h => absurd (h.1 ▸ h.2) hk⟩

theorem readPosition?_print (hlarge : smallInteger? x = none)
    (h : readPosition? (Layout.script.print x) = some n) : safeInteger < 2 * n := by
  unfold Layout.print at h
  cases hform : form x with
  | nan =>
      rw [hform] at h
      cases h
  | infinite negative =>
      rw [hform] at h
      cases negative <;> cases h
  | finite negative m e =>
      obtain ⟨hm', he, he'⟩ := form_bounds hform
      have hnone (k : Int) (hk : (form x).value? = some (k : ℚ)) : safeInteger < k.natAbs := by
        by_contra hsafe
        have hsmall := smallInteger?_eq_some.2
          ⟨Form.integer?_eq_some.2 hk, Nat.le_of_not_lt hsafe⟩
        cases hlarge.symm.trans hsmall
      rw [hform] at h hnone
      dsimp only at h
      split at h
      · next hzero =>
        have := hnone 0 (by simp [hzero, Form.value?, magnitude])
        simp at this
      · next hzero =>
        cases negative with
        | true =>
            rw [readPosition?_stray (c := '-') (by simp [Layout.sign]) (by decide) (by decide)] at h
            cases h
        | false =>
            have hm := Nat.pos_of_ne_zero hzero
            have hvalue := readPosition?_positional h
            obtain ⟨k, hk, hn⟩ := integer_of_shortest hm hm' he he' hvalue
            have hlt := hnone k (by simp [Form.value?, hk])
            rw [Int.natAbs_natCast] at hlt
            omega

/-- A number has a position for its text just where it is one, up to the last 32-bit word. -/
theorem position?_iff :
    position? x = some n ↔ readPosition? (text x) = some n ∧ n < UInt32.size - 1 := by
  have hsafe : 2 * (UInt32.size - 1) < safeInteger := by decide
  rw [position?_eq_some]
  refine and_congr_left fun hn => ?_
  have hsize : n < UInt64.size := Nat.lt_trans hn (by decide)
  unfold text
  cases hsmall : smallInteger? x with
  | some k =>
      rw [(smallInteger?_eq_some.1 hsmall).1]
      cases k with
      | ofNat k =>
          change _ ↔ readPosition? k.repr = some n
          rw [readPosition?_repr]
          constructor
          · intro heq
            obtain rfl : k = n := by simpa using heq
            exact if_pos hsize
          · intro hread
            split at hread
            · simpa using hread
            · cases hread
      | negSucc k =>
          change _ ↔ readPosition? ("-" ++ (k + 1).repr) = some n
          rw [readPosition?_stray (c := '-') (by simp) (by decide) (by decide)]
          simp
  | none =>
      constructor
      · intro hinteger
        have hk := smallInteger?_eq_some.2 ⟨hinteger, by simp; omega⟩
        cases hsmall.symm.trans hk
      · intro hread
        have hlarge := readPosition?_print hsmall hread
        omega

end ScriptHost.Number
