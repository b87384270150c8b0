import Mathlib
import CircuitCache.Proofs.Rounding

/-!
# How far rounding goes

The word that a value is rounded to has a value of its own (`Binary64.value_ofValue`).  It is the
value itself where the significand can hold that, and from one up it lies above by no more than one
part in `2 ^ 53`.  Products and quotients of words are rounded from those of their values.
-/

namespace CircuitCache

namespace Precision

theorem nearestTo_le_add_half {v : ℚ} (hv : 0 ≤ v) : (nearestTo v : ℚ) ≤ v + 1 / 2 := by
  have hfloor : (⌊v⌋₊ : ℚ) + Int.fract v = v := by
    rw [natCast_floor_eq_intCast_floor hv, Int.floor_add_fract]
  have hfract := Int.fract_nonneg v
  unfold nearestTo
  split_ifs
  · linarith
  · push_cast
    linarith
  · linarith
  · push_cast
    linarith

variable {v : ℚ}

/-- Where a positive value stands among the words: the exponent is one of the format, and the
significand is full unless the exponent is the least one. -/
theorem roundTo_double_bounds (hv : 0 < v) :
    -1074 ≤ (double.roundTo v).2 ∧ (double.roundTo v).1 ≤ 2 ^ 53 ∧
      ((double.roundTo v).2 = -1074 ∨ 2 ^ 52 ≤ (double.roundTo v).1) := by
  simp only [roundTo, double]
  set q := max (-1074 : ℤ) (Int.log 2 v - ((53 : ℕ) - 1)) with hq
  have hpower : (0 : ℚ) < 2 ^ q := zpow_pos two_pos q
  refine ⟨le_max_left _ _, ?_, ?_⟩
  · have hlt : v / 2 ^ q < 2 ^ 53 := by
      rw [div_lt_iff₀ hpower]
      calc v < ((2 : ℕ) : ℚ) ^ (Int.log 2 v + 1) := Int.lt_zpow_succ_log_self Nat.one_lt_two v
        _ ≤ 2 ^ (53 + q) := by
            rw [Nat.cast_ofNat]
            exact zpow_le_zpow_right₀ one_le_two (by omega)
        _ = 2 ^ 53 * 2 ^ q := by rw [zpow_add₀ two_ne_zero]; rfl
    have hle := nearestTo_le_add_half (div_pos hv hpower).le
    have hlt : (nearestTo (v / 2 ^ q) : ℚ) < (2 ^ 53 + 1 : ℕ) := by
      push_cast
      linarith
    exact Nat.lt_succ_iff.1 (Nat.cast_lt.1 hlt)
  · by_cases hleast : q = -1074
    · exact .inl hleast
    · refine .inr (le_trans (Nat.le_floor ?_) (floor_le_nearestTo _))
      rw [le_div_iff₀ hpower]
      calc ((2 ^ 52 : ℕ) : ℚ) * 2 ^ q = 2 ^ (52 : ℤ) * 2 ^ q := by norm_num
        _ = ((2 : ℕ) : ℚ) ^ Int.log 2 v := by
            rw [← zpow_add₀ two_ne_zero, Nat.cast_ofNat]
            congr 1
            omega
        _ ≤ v := Int.zpow_log_le_self Nat.one_lt_two hv

end Precision

namespace Binary64

open Precision

variable {negative : Bool} {v w : ℚ}

/-! ## Parts of rounded words -/

theorem toNat_bits_ofMagnitude {m : ℕ} (h : m ≤ infiniteMagnitude) :
    (ofMagnitude negative m).bits.toNat = if negative then signBit + m else m := by
  refine UInt64.toNat_ofNat_of_lt' ?_
  unfold infiniteMagnitude at h
  unfold signBit UInt64.size
  split <;> omega

theorem magnitude_ofMagnitude {m : ℕ} (h : m ≤ infiniteMagnitude) :
    (ofMagnitude negative m).magnitude = m := by
  have hm : m < signBit := lt_of_le_of_lt h (by decide)
  rw [magnitude, toNat_bits_ofMagnitude h]
  cases negative
  · exact Nat.mod_eq_of_lt hm
  · rw [if_pos rfl, Nat.add_mod_left, Nat.mod_eq_of_lt hm]

theorem isNegative_ofMagnitude {m : ℕ} (h : m ≤ infiniteMagnitude) :
    (ofMagnitude negative m).isNegative = negative := by
  have hm : m < signBit := lt_of_le_of_lt h (by decide)
  rw [isNegative, toNat_bits_ofMagnitude h]
  cases negative
  · exact decide_eq_false (Nat.not_le.2 hm)
  · exact decide_eq_true (Nat.le_add_right _ _)

/-- A rounded word is its sign with a magnitude up to infinity, and only the sign depends on the
sign. -/
theorem exists_magnitude_ofValue (v : ℚ) :
    ∃ m ≤ infiniteMagnitude, ∀ negative, ofValue negative v = ofMagnitude negative m := by
  unfold ofValue
  by_cases hv : v = 0
  · exact ⟨0, Nat.zero_le _, fun negative => if_pos hv⟩
  · exact ⟨_, min_le_right _ _, fun negative => if_neg hv⟩

theorem isNegative_ofValue (negative : Bool) (v : ℚ) :
    (ofValue negative v).isNegative = negative := by
  obtain ⟨m, hm, hword⟩ := exists_magnitude_ofValue v
  rw [hword, isNegative_ofMagnitude hm]

/-- The same value with another sign. -/
theorem ofMagnitude_magnitude_ofValue (negative other : Bool) (v : ℚ) :
    ofMagnitude negative (ofValue other v).magnitude = ofValue negative v := by
  obtain ⟨m, hm, hword⟩ := exists_magnitude_ofValue v
  rw [hword, hword, magnitude_ofMagnitude hm]

/-! ## Values of rounded words -/

theorem value_ofMagnitude {m : ℕ} {q : ℤ} (hq : -1074 ≤ q) (hm : m ≤ 2 ^ 53)
    (hfull : q = -1074 ∨ 2 ^ 52 ≤ m)
    (hfinite : (q + 1074).toNat * hiddenBit + m < infiniteMagnitude) :
    (ofMagnitude negative ((q + 1074).toNat * hiddenBit + m)).value = m * 2 ^ q := by
  rw [value, significand, exponent, magnitude_ofMagnitude hfinite.le]
  by_cases hcarry : m = 2 ^ 53
  · -- A significand of 54 bits is that of 53 with the exponent one higher.
    have hsplit : (q + 1074).toNat * hiddenBit + m = ((q + 1074).toNat + 2) * hiddenBit := by
      rw [hcarry]
      unfold hiddenBit
      ring
    rw [hsplit, if_neg (by unfold hiddenBit; omega), Nat.mul_mod_left,
      Nat.mul_div_cancel _ (by decide), hcarry]
    have hexponent : ((max ((q + 1074).toNat + 2) 1 : ℕ) : ℤ) - 1075 = q + 1 := by omega
    rw [hexponent, zpow_add_one₀ two_ne_zero]
    unfold hiddenBit
    push_cast
    ring
  · by_cases hnormal : m < hiddenBit
    · have hleast : q = -1074 := by
        unfold hiddenBit at hnormal
        omega
      rw [hleast, show (-1074 + 1074 : ℤ).toNat = 0 from rfl, Nat.zero_mul, Nat.zero_add,
        if_pos hnormal, Nat.div_eq_of_lt hnormal]
      rfl
    · have hmod : ((q + 1074).toNat * hiddenBit + m) % hiddenBit = m - hiddenBit := by
        unfold hiddenBit at hnormal ⊢
        omega
      have hdiv : ((q + 1074).toNat * hiddenBit + m) / hiddenBit = (q + 1074).toNat + 1 := by
        unfold hiddenBit at hnormal ⊢
        omega
      rw [if_neg (by omega), hmod, hdiv]
      have hexponent : ((max ((q + 1074).toNat + 1) 1 : ℕ) : ℤ) - 1075 = q := by omega
      rw [hexponent, Nat.add_sub_cancel' (Nat.not_lt.1 hnormal)]

theorem value_ofMagnitude_zero (negative : Bool) : (ofMagnitude negative 0).value = 0 := by
  rw [value, significand, magnitude_ofMagnitude (Nat.zero_le _), if_pos (by decide), Nat.cast_zero,
    zero_mul]

/-- The value of a rounded word that is finite. -/
theorem value_ofValue (hv : 0 < v) (hfinite : (ofValue negative v).isFinite = true) :
    (ofValue negative v).value = (double.roundTo v).1 * 2 ^ (double.roundTo v).2 := by
  obtain ⟨hq, hm, hfull⟩ := roundTo_double_bounds hv
  rw [ofValue, if_neg hv.ne'] at hfinite ⊢
  simp only at hfinite ⊢
  rw [isFinite, magnitude_ofMagnitude (min_le_right _ _), decide_eq_true_eq, min_lt_iff,
    or_iff_left (lt_irrefl _)] at hfinite
  rw [min_eq_left hfinite.le, value_ofMagnitude hq hm hfull hfinite]

/-- What a significand holds is not changed by rounding. -/
theorem value_ofValue_of_exact {m : ℕ} {q : ℤ} (hm : m < 2 ^ 53) (hq : -1074 ≤ q)
    (hfinite : (ofValue negative (m * 2 ^ q)).isFinite = true) :
    (ofValue negative (m * 2 ^ q)).value = m * 2 ^ q := by
  rcases Nat.eq_zero_or_pos m with rfl | hpos
  · rw [Nat.cast_zero, zero_mul, ofValue_zero, value_ofMagnitude_zero]
  · have hv : (0 : ℚ) < m * 2 ^ q := mul_pos (Nat.cast_pos.2 hpos) (zpow_pos two_pos q)
    have hlog : Int.log 2 ((m : ℚ) * 2 ^ q) < 53 + q := by
      refine (Int.lt_zpow_iff_log_lt Nat.one_lt_two hv).1 ?_
      rw [Nat.cast_ofNat, zpow_add₀ two_ne_zero]
      have hm' : (m : ℚ) < 2 ^ (53 : ℤ) := by exact_mod_cast hm
      gcongr
    rw [value_ofValue hv hfinite]
    simp only [roundTo, double]
    set p := max (-1074 : ℤ) (Int.log 2 ((m : ℚ) * 2 ^ q) - ((53 : ℕ) - 1)) with hp
    -- The exponent is no greater than the given one, so the digits are shifted up.
    obtain ⟨k, hk⟩ : ∃ k : ℕ, q = k + p := ⟨(q - p).toNat, by omega⟩
    have hpower : (2 : ℚ) ^ p ≠ 0 := zpow_ne_zero p two_ne_zero
    have hshift : (m : ℚ) * 2 ^ q / 2 ^ p = ((m * 2 ^ k : ℕ) : ℚ) := by
      rw [hk, zpow_add₀ two_ne_zero, zpow_natCast, ← mul_assoc, mul_div_cancel_right₀ _ hpower]
      push_cast
      rfl
    rw [hshift, nearestTo_natCast, ← hshift, div_mul_cancel₀ _ hpower]

/-- From one up, rounding adds no more than one part in `2 ^ 53`. -/
theorem value_ofValue_le (hv : 1 ≤ v) (hfinite : (ofValue negative v).isFinite = true) :
    (ofValue negative v).value ≤ v * (1 + 2 ^ (-53 : ℤ)) := by
  have hpos : 0 < v := lt_of_lt_of_le one_pos hv
  have hlog : 0 ≤ Int.log 2 v := by
    rw [← Int.zpow_le_iff_le_log Nat.one_lt_two hpos, zpow_zero]
    exact hv
  rw [value_ofValue hpos hfinite]
  simp only [roundTo, double]
  set q := max (-1074 : ℤ) (Int.log 2 v - ((53 : ℕ) - 1)) with hq
  have hexponent : q = Int.log 2 v - 52 := by omega
  have hpower : (0 : ℚ) < 2 ^ q := zpow_pos two_pos q
  calc (nearestTo (v / 2 ^ q) : ℚ) * 2 ^ q ≤ (v / 2 ^ q + 1 / 2) * 2 ^ q := by
        gcongr
        exact nearestTo_le_add_half (div_pos hpos hpower).le
    _ = v + 2 ^ q * 2 ^ (-1 : ℤ) := by
        rw [add_mul, div_mul_cancel₀ _ hpower.ne', zpow_neg_one]
        ring
    _ = v + ((2 : ℕ) : ℚ) ^ Int.log 2 v * 2 ^ (-53 : ℤ) := by
        rw [Nat.cast_ofNat, ← zpow_add₀ two_ne_zero, ← zpow_add₀ two_ne_zero, hexponent]
        congr 2
        ring
    _ ≤ v + v * 2 ^ (-53 : ℤ) := by
        gcongr
        exact Int.zpow_log_le_self Nat.one_lt_two hpos
    _ = v * (1 + 2 ^ (-53 : ℤ)) := by ring

/-! ## The greatest words -/

/-- What is no greater than the greatest finite value is rounded to a finite word. -/
theorem isFinite_ofValue_of_le (hv : 0 ≤ v) (h : v ≤ (2 ^ 53 - 1) * 2 ^ (971 : ℤ)) :
    (ofValue negative v).isFinite = true := by
  obtain rfl | hv := hv.eq_or_lt
  · rw [ofValue_zero, isFinite, magnitude_ofMagnitude (Nat.zero_le _)]
    rfl
  obtain ⟨hleast, hm, -⟩ := roundTo_double_bounds hv
  have hlog : Int.log 2 v < 1024 := by
    refine (Int.lt_zpow_iff_log_lt Nat.one_lt_two hv).1 (lt_of_le_of_lt h ?_)
    calc (2 ^ 53 - 1) * (2 : ℚ) ^ (971 : ℤ) < 2 ^ (53 : ℤ) * 2 ^ (971 : ℤ) := by
          gcongr
          norm_num
      _ = ((2 : ℕ) : ℚ) ^ (1024 : ℤ) := by
          rw [← zpow_add₀ two_ne_zero]
          norm_num
  have hlast : (double.roundTo v).2 ≤ 971 := by
    simp only [roundTo, double]
    omega
  have hfull : (double.roundTo v).2 = 971 → (double.roundTo v).1 < 2 ^ 53 := by
    intro hq
    have hle : v / 2 ^ (double.roundTo v).2 ≤ 2 ^ 53 - 1 := by
      rw [hq]
      exact (div_le_iff₀ (zpow_pos two_pos _)).2 h
    have hnearest := nearestTo_le_add_half (div_pos hv (zpow_pos two_pos (double.roundTo v).2)).le
    have hlt : ((double.roundTo v).1 : ℚ) < (2 ^ 53 : ℕ) := by
      refine lt_of_le_of_lt hnearest ?_
      push_cast
      linarith
    exact Nat.cast_lt.1 hlt
  rw [ofValue, if_neg hv.ne', isFinite, magnitude_ofMagnitude (min_le_right _ _), decide_eq_true_eq]
  refine lt_of_le_of_lt (min_le_left _ _) ?_
  unfold hiddenBit infiniteMagnitude
  omega

/-- What reaches a value with a full significand is rounded to no smaller word. -/
theorem le_magnitude_ofValue (negative : Bool) {m : ℕ} {q : ℤ} (hq : -1074 ≤ q) (hlast : q ≤ 971)
    (hfull : 2 ^ 52 ≤ m) (hm : m < 2 ^ 53) (h : m * 2 ^ q ≤ v) :
    (q + 1074).toNat * hiddenBit + m ≤ (ofValue negative v).magnitude := by
  have hpower : (0 : ℚ) < 2 ^ q := zpow_pos two_pos q
  have hv : 0 < v := lt_of_lt_of_le (mul_pos (Nat.cast_pos.2 (by omega)) hpower) h
  have hlog : 52 + q ≤ Int.log 2 v := by
    refine (Int.zpow_le_iff_le_log Nat.one_lt_two hv).1 (le_trans ?_ h)
    rw [Nat.cast_ofNat, zpow_add₀ two_ne_zero]
    have hfull' : (2 : ℚ) ^ (52 : ℤ) ≤ m := by exact_mod_cast hfull
    gcongr
  obtain ⟨-, -, hbounds⟩ := roundTo_double_bounds hv
  have hexponent : q ≤ (double.roundTo v).2 := by
    simp only [roundTo, double]
    omega
  have hsame : (double.roundTo v).2 = q → m ≤ (double.roundTo v).1 := by
    intro heq
    refine le_trans (Nat.le_floor ?_) (floor_le_nearestTo _)
    show (m : ℚ) ≤ v / 2 ^ (double.roundTo v).2
    rwa [heq, le_div_iff₀ hpower]
  rw [ofValue, if_neg hv.ne', magnitude_ofMagnitude (min_le_right _ _), le_min_iff]
  unfold hiddenBit infiniteMagnitude
  omega

/-! ## Products and quotients -/

theorem ratio_snd_pos (x : Binary64) : 0 < x.ratio.2 := by
  unfold ratio
  split
  · exact Nat.one_pos
  · exact Nat.pow_pos Nat.two_pos

theorem ratio_fst_div_snd (x : Binary64) : (x.ratio.1 : ℚ) / x.ratio.2 = x.value := by
  unfold ratio value
  split
  · next hq =>
    rw [Nat.cast_mul, cast_pow_toNat 2 hq, Nat.cast_ofNat, Nat.cast_one, div_one]
  · next hq =>
    rw [cast_pow_toNat 2 (by omega), Nat.cast_ofNat, zpow_neg, div_inv_eq_mul]

theorem times_eq_ofValue (x y : Binary64) :
    x.times y = ofValue (x.isNegative ^^ y.isNegative) (x.value * y.value) := by
  rw [times, ofRatio_eq_ofValue _ _ (Nat.mul_pos x.ratio_snd_pos y.ratio_snd_pos), Nat.cast_mul,
    Nat.cast_mul, ← div_mul_div_comm, ratio_fst_div_snd, ratio_fst_div_snd]

theorem dividedBy_eq_ofValue (x : Binary64) {y : Binary64} (hy : 0 < y.value) :
    x.dividedBy y = ofValue (x.isNegative ^^ y.isNegative) (x.value / y.value) := by
  have hnum : 0 < y.ratio.1 := by
    rw [← ratio_fst_div_snd] at hy
    exact Nat.pos_of_ne_zero fun hzero => by simp [hzero] at hy
  rw [dividedBy, ofRatio_eq_ofValue _ _ (Nat.mul_pos x.ratio_snd_pos hnum), Nat.cast_mul,
    Nat.cast_mul, ← div_div_div_eq, ratio_fst_div_snd, ratio_fst_div_snd]

end Binary64

end CircuitCache
