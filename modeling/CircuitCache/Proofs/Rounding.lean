import Mathlib
import CircuitCache.Binary64

/-!
# Rounding by value

Rounding a ratio depends on its value alone (`Binary64.ofRatio_eq_ofValue`), where the value is a
rational number: its binary logarithm gives the exponent, and the nearest natural number the
significand.  A finite word is what its own value is rounded to, what reaches `2 ^ 1024` is rounded
to infinity, and what lies below half the least positive value to zero.
-/

namespace CircuitCache

/-! ## Logarithms and nearest numbers -/

namespace Precision

/-- The natural number nearest to a value; a half goes to the even neighbour. -/
def nearestTo (v : ℚ) : ℕ :=
  if 2 * Int.fract v < 1 then ⌊v⌋₊
  else if 1 < 2 * Int.fract v then ⌊v⌋₊ + 1
  else if ⌊v⌋₊ % 2 = 0 then ⌊v⌋₊ else ⌊v⌋₊ + 1

theorem nearest_eq_nearestTo (num : ℕ) {den : ℕ} (hden : 0 < den) :
    nearest num den = nearestTo ((num : ℚ) / den) := by
  have hpos : (0 : ℚ) < den := Nat.cast_pos.2 hden
  have hfract : Int.fract ((num : ℚ) / den) = ((num % den : ℕ) : ℚ) / den :=
    Int.fract_div_natCast_eq_div_natCast_mod
  have hlow : 2 * Int.fract ((num : ℚ) / den) < 1 ↔ 2 * (num % den) < den := by
    rw [hfract, ← mul_div_assoc, div_lt_one hpos]
    exact_mod_cast Iff.rfl
  have hhigh : 1 < 2 * Int.fract ((num : ℚ) / den) ↔ den < 2 * (num % den) := by
    rw [hfract, ← mul_div_assoc, one_lt_div hpos]
    exact_mod_cast Iff.rfl
  simp only [nearest, nearestTo, hlow, hhigh, Nat.floor_div_eq_div]

theorem nearestTo_natCast (n : ℕ) : nearestTo n = n := by
  rw [nearestTo, Int.fract_natCast, if_pos (by norm_num), Nat.floor_natCast]

theorem floor_le_nearestTo (v : ℚ) : ⌊v⌋₊ ≤ nearestTo v := by
  unfold nearestTo
  split_ifs <;> omega

theorem nearestTo_of_lt_half {v : ℚ} (hv : 0 ≤ v) (h : 2 * v < 1) : nearestTo v = 0 := by
  have hfract : Int.fract v = v := Int.fract_eq_self.2 ⟨hv, by linarith⟩
  rw [nearestTo, hfract, if_pos h, Nat.floor_eq_zero]
  linarith

theorem cast_pow_toNat (b : ℕ) {e : ℤ} (he : 0 ≤ e) :
    ((Nat.pow b e.toNat : ℕ) : ℚ) = (b : ℚ) ^ e := by
  obtain ⟨k, rfl⟩ := Int.eq_ofNat_of_zero_le he
  rw [Int.toNat_natCast, zpow_natCast, Nat.pow_eq, Nat.cast_pow]

theorem scaled_snd_pos (num : ℕ) {den : ℕ} (hden : 0 < den) (q : ℤ) :
    0 < (scaled num den q).2 := by
  unfold scaled
  split
  · exact Nat.mul_pos hden (Nat.pow_pos Nat.two_pos)
  · exact hden

/-- Scaling divides by the power of two, whatever its sign. -/
theorem scaled_fst_div_snd (num : ℕ) (den : ℕ) (q : ℤ) :
    ((scaled num den q).1 : ℚ) / (scaled num den q).2 = (num : ℚ) / den / 2 ^ q := by
  unfold scaled
  split
  · next hq => rw [Nat.cast_mul, cast_pow_toNat 2 hq, Nat.cast_ofNat, div_div]
  · next hq =>
    rw [Nat.cast_mul, cast_pow_toNat 2 (by omega), Nat.cast_ofNat, zpow_neg, ← div_eq_mul_inv,
      div_right_comm]

theorem zpow_log2_le {n : ℕ} (hn : 0 < n) : (2 : ℚ) ^ (n.log2 : ℤ) ≤ n := by
  rw [zpow_natCast]
  exact_mod_cast Nat.log2_self_le hn.ne'

theorem lt_zpow_log2 (n : ℕ) : (n : ℚ) < 2 ^ ((n.log2 : ℤ) + 1) := by
  rw [← Nat.cast_succ, zpow_natCast]
  exact_mod_cast Nat.lt_log2_self (n := n)

/-- The logarithms of numerator and denominator leave two candidates for that of a ratio. -/
theorem log_ratio_bounds {num den : ℕ} (hnum : 0 < num) (hden : 0 < den) :
    (num.log2 : ℤ) - den.log2 - 1 ≤ Int.log 2 ((num : ℚ) / den) ∧
      Int.log 2 ((num : ℚ) / den) ≤ (num.log2 : ℤ) - den.log2 := by
  have hnum' : (0 : ℚ) < num := Nat.cast_pos.2 hnum
  have hden' : (0 : ℚ) < den := Nat.cast_pos.2 hden
  have hratio : (0 : ℚ) < num / den := div_pos hnum' hden'
  have hnumLow := zpow_log2_le hnum
  have hnumHigh := lt_zpow_log2 num
  have hdenLow := zpow_log2_le hden
  have hdenHigh := lt_zpow_log2 den
  have htwo : (2 : ℚ) ≠ 0 := two_ne_zero
  constructor
  · refine (Int.zpow_le_iff_le_log Nat.one_lt_two hratio).1 ?_
    rw [le_div_iff₀ hden', Nat.cast_ofNat]
    calc (2 : ℚ) ^ ((num.log2 : ℤ) - den.log2 - 1) * den
        ≤ 2 ^ ((num.log2 : ℤ) - den.log2 - 1) * 2 ^ ((den.log2 : ℤ) + 1) := by gcongr
      _ = 2 ^ (num.log2 : ℤ) := by
          rw [← zpow_add₀ htwo]
          congr 1
          ring
      _ ≤ num := hnumLow
  · refine Int.lt_add_one_iff.1 ((Int.lt_zpow_iff_log_lt Nat.one_lt_two hratio).1 ?_)
    rw [div_lt_iff₀ hden', Nat.cast_ofNat]
    calc (num : ℚ) < 2 ^ ((num.log2 : ℤ) + 1) := hnumHigh
      _ = 2 ^ ((num.log2 : ℤ) - den.log2 + 1) * 2 ^ (den.log2 : ℤ) := by
          rw [← zpow_add₀ htwo]
          congr 1
          ring
      _ ≤ 2 ^ ((num.log2 : ℤ) - den.log2 + 1) * den := by gcongr

theorem floorLog_eq_log {num den : ℕ} (hnum : 0 < num) (hden : 0 < den) :
    floorLog num den = Int.log 2 ((num : ℚ) / den) := by
  have hratio : (0 : ℚ) < num / den := div_pos (Nat.cast_pos.2 hnum) (Nat.cast_pos.2 hden)
  obtain ⟨hlow, hhigh⟩ := log_ratio_bounds hnum hden
  -- Of the two candidates the comparison of the scaled ratio with one picks the right one.
  have hcompare (k : ℤ) : (scaled num den k).2 ≤ (scaled num den k).1 ↔
      k ≤ Int.log 2 ((num : ℚ) / den) := by
    have hpos : (0 : ℚ) < (scaled num den k).2 := Nat.cast_pos.2 (scaled_snd_pos num hden k)
    have hpower : (0 : ℚ) < 2 ^ k := zpow_pos two_pos k
    rw [← Int.zpow_le_iff_le_log Nat.one_lt_two hratio, Nat.cast_ofNat, ← one_le_div hpower,
      ← scaled_fst_div_snd, one_le_div hpos, Nat.cast_le]
  rw [floorLog]
  simp only [hcompare]
  split <;> omega

/-- The value `m * 2 ^ q` of a format nearest to a positive value, as `(m, q)`. -/
def roundTo (p : Precision) (v : ℚ) : ℕ × ℤ :=
  let q := max p.leastExponent (Int.log 2 v - (p.significandBits - 1))
  (nearestTo (v / 2 ^ q), q)

theorem round_eq_roundTo (p : Precision) {num den : ℕ} (hnum : 0 < num) (hden : 0 < den) :
    p.round num den = p.roundTo ((num : ℚ) / den) := by
  rw [round, roundTo, floorLog_eq_log hnum hden]
  simp only [nearest_eq_nearestTo _ (scaled_snd_pos num hden _), scaled_fst_div_snd]

end Precision

/-! ## Words -/

namespace Binary64

open Precision

/-- The word nearest to a value that is not negative, with a sign. -/
def ofValue (negative : Bool) (v : ℚ) : Binary64 :=
  if v = 0 then ofMagnitude negative 0
  else
    let mq := double.roundTo v
    ofMagnitude negative (min ((mq.2 + 1074).toNat * hiddenBit + mq.1) infiniteMagnitude)

theorem ofRatio_eq_ofValue (negative : Bool) (num : ℕ) {den : ℕ} (hden : 0 < den) :
    ofRatio negative num den = ofValue negative ((num : ℚ) / den) := by
  unfold ofRatio ofValue
  by_cases hnum : num = 0
  · rw [if_pos hnum, if_pos (by rw [hnum, Nat.cast_zero, zero_div])]
  · have hne : (num : ℚ) / den ≠ 0 :=
      div_ne_zero (Nat.cast_ne_zero.2 hnum) (Nat.cast_ne_zero.2 hden.ne')
    rw [if_neg hnum, if_neg hne, round_eq_roundTo _ (Nat.pos_of_ne_zero hnum) hden]

theorem ofValue_zero (negative : Bool) : ofValue negative 0 = ofMagnitude negative 0 := if_pos rfl

/-! ### Values of words -/

/-- The magnitude of a finite word as a rational number. -/
def value (x : Binary64) : ℚ := x.significand * 2 ^ x.exponent

theorem ofMagnitude_magnitude (x : Binary64) : ofMagnitude x.isNegative x.magnitude = x := by
  obtain ⟨bits⟩ := x
  have hbits : (if decide (signBit ≤ bits.toNat) = true then signBit + bits.toNat % signBit
      else bits.toNat % signBit) = bits.toNat := by
    have hlt : bits.toNat < 2 * signBit := bits.toNat_lt
    unfold signBit at hlt ⊢
    simp only [decide_eq_true_eq]
    split <;> omega
  rw [ofMagnitude, isNegative, magnitude, hbits, UInt64.ofNat_toNat]

/-- A significand of at most 53 bits at an exponent that holds all of it stays as it is. -/
theorem roundTo_of_fits {m : ℕ} {q : ℤ} (hpos : 0 < m) (hm : m < 2 ^ 53) (hq : -1074 ≤ q)
    (hfull : q = -1074 ∨ 2 ^ 52 ≤ m) : double.roundTo ((m : ℚ) * 2 ^ q) = (m, q) := by
  have hvalue : (0 : ℚ) < m * 2 ^ q := mul_pos (Nat.cast_pos.2 hpos) (zpow_pos two_pos q)
  have hhigh : Int.log 2 ((m : ℚ) * 2 ^ q) < 53 + q := by
    refine (Int.lt_zpow_iff_log_lt Nat.one_lt_two hvalue).1 ?_
    rw [Nat.cast_ofNat, zpow_add₀ two_ne_zero]
    have hm' : (m : ℚ) < 2 ^ (53 : ℤ) := by exact_mod_cast hm
    gcongr
  have hlow : 2 ^ 52 ≤ m → 52 + q ≤ Int.log 2 ((m : ℚ) * 2 ^ q) := by
    intro hm
    refine (Int.zpow_le_iff_le_log Nat.one_lt_two hvalue).1 ?_
    rw [Nat.cast_ofNat, zpow_add₀ two_ne_zero]
    have hm' : (2 : ℚ) ^ (52 : ℤ) ≤ m := by exact_mod_cast hm
    gcongr
  have hexponent : max double.leastExponent
      (Int.log 2 ((m : ℚ) * 2 ^ q) - (double.significandBits - 1)) = q := by
    simp only [double]
    rcases hfull with hfull | hfull
    · omega
    · have := hlow hfull
      omega
  rw [roundTo]
  simp only [hexponent]
  rw [mul_div_cancel_right₀ _ (zpow_ne_zero q two_ne_zero), nearestTo_natCast]

/-- A finite word is what its value is rounded to. -/
theorem ofValue_value {x : Binary64} (h : x.isFinite = true) :
    ofValue x.isNegative x.value = x := by
  have hfinite : x.magnitude < infiniteMagnitude := of_decide_eq_true h
  unfold ofValue
  split
  · next hzero =>
    have hsignificand : x.significand = 0 := by
      rcases mul_eq_zero.1 hzero with h | h
      · exact Nat.cast_eq_zero.1 h
      · exact absurd h (zpow_ne_zero _ two_ne_zero)
    have hmagnitude : x.magnitude = 0 := by
      unfold significand hiddenBit at hsignificand
      split at hsignificand <;> omega
    rw [← hmagnitude, ofMagnitude_magnitude]
  · next hne =>
    have hpos : 0 < x.significand := by
      refine Nat.pos_of_ne_zero fun h => hne ?_
      rw [value, h, Nat.cast_zero, zero_mul]
    have hround : double.roundTo x.value = (x.significand, x.exponent) := by
      refine roundTo_of_fits hpos ?_ ?_ ?_
      · unfold significand hiddenBit
        split <;> omega
      · unfold exponent
        omega
      · unfold significand exponent hiddenBit
        split <;> omega
    have hmagnitude : (x.exponent + 1074).toNat * hiddenBit + x.significand = x.magnitude := by
      unfold exponent significand
      unfold hiddenBit
      split <;> omega
    simp only [hround, hmagnitude]
    rw [min_eq_left hfinite.le, ofMagnitude_magnitude]

/-! ### The ends of the range -/

/-- What is at least `2 ^ 1024` is beyond all finite words. -/
theorem ofValue_of_ge (negative : Bool) {v : ℚ} (h : 2 ^ 1024 ≤ v) :
    ofValue negative v = infinity negative := by
  have hv : 0 < v := lt_of_lt_of_le (by positivity) h
  have hlog : 1024 ≤ Int.log 2 v := by
    refine (Int.zpow_le_iff_le_log Nat.one_lt_two hv).1 ?_
    exact_mod_cast h
  rw [ofValue, if_neg hv.ne', roundTo]
  have hexponent : max double.leastExponent (Int.log 2 v - (double.significandBits - 1)) =
      Int.log 2 v - 52 := by
    simp only [double]
    omega
  simp only [hexponent]
  have hsignificand : 2 ^ 52 ≤ nearestTo (v / 2 ^ (Int.log 2 v - 52)) := by
    refine le_trans (Nat.le_floor ?_) (floor_le_nearestTo _)
    rw [le_div_iff₀ (zpow_pos two_pos _)]
    calc ((2 ^ 52 : ℕ) : ℚ) * 2 ^ (Int.log 2 v - 52)
        = 2 ^ (52 : ℤ) * 2 ^ (Int.log 2 v - 52) := by norm_num
      _ = ((2 : ℕ) : ℚ) ^ Int.log 2 v := by
          rw [← zpow_add₀ two_ne_zero, Nat.cast_ofNat]
          congr 1
          ring
      _ ≤ v := Int.zpow_log_le_self Nat.one_lt_two hv
  have hmagnitude : infiniteMagnitude ≤
      (Int.log 2 v - 52 + 1074).toNat * hiddenBit + nearestTo (v / 2 ^ (Int.log 2 v - 52)) := by
    unfold infiniteMagnitude hiddenBit
    omega
  rw [min_eq_right hmagnitude, infinity]

/-- What is less than half the least positive value is rounded to zero. -/
theorem ofValue_of_lt (negative : Bool) {v : ℚ} (hv : 0 ≤ v) (h : v < 2 ^ (-1075 : ℤ)) :
    ofValue negative v = ofMagnitude negative 0 := by
  unfold ofValue
  split
  · rfl
  · next hne =>
    have hpos : 0 < v := lt_of_le_of_ne hv (Ne.symm hne)
    have hlog : Int.log 2 v < -1075 := by
      refine (Int.lt_zpow_iff_log_lt Nat.one_lt_two hpos).1 ?_
      exact_mod_cast h
    have hexponent : max double.leastExponent (Int.log 2 v - (double.significandBits - 1)) =
        -1074 := by
      simp only [double]
      omega
    have hpower : (0 : ℚ) < 2 ^ (-1074 : ℤ) := zpow_pos two_pos _
    have hhalf : 2 * (v / 2 ^ (-1074 : ℤ)) < 1 := by
      rw [← mul_div_assoc, div_lt_one hpower]
      calc 2 * v < 2 * 2 ^ (-1075 : ℤ) := by linarith
        _ = 2 ^ (-1074 : ℤ) := by
            rw [← zpow_one_add₀ two_ne_zero]
            norm_num
    have hzero : nearestTo (v / 2 ^ (-1074 : ℤ)) = 0 :=
      nearestTo_of_lt_half (div_nonneg hv hpower.le) hhalf
    rw [roundTo]
    simp only [hexponent, hzero]
    rfl

end Binary64

end CircuitCache
