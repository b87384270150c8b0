import Mathlib
import CircuitCache.Proofs.Rounding
import CircuitCache.Proofs.Stored

/-!
# Words and their digits

A finite word is the nearest one to the digits that are written for it: each candidate for the
fewest digits is tried by rounding it, the expansion has the very value of the word, and laying
digits out around a point keeps their value.  So the numeral of a finite word denotes a number that
is rounded to the word (`Binary64.toWord_numeral`).
-/

namespace CircuitCache

/-! ## Decimal numbers -/

namespace Decimal

open Binary64

/-- The magnitude of a decimal number. -/
def value (d : Decimal) : ℚ := d.digits * 10 ^ d.exponent

theorem ratio_snd_pos (d : Decimal) : 0 < d.ratio.2 := by
  unfold ratio
  simp only
  split
  · exact Nat.one_pos
  · exact Nat.pow_pos (by decide)

/-- The ratio has the value of the decimal number with its exponent cut to the limits. -/
theorem ratio_eq (d : Decimal) : (d.ratio.1 : ℚ) / d.ratio.2 =
    d.digits * 10 ^ max (-depth d.digits) (min d.exponent 400) := by
  unfold ratio
  generalize max (-depth d.digits) (min d.exponent 400) = e
  simp only
  split
  · next he =>
    rw [Nat.cast_mul, Precision.cast_pow_toNat 10 he, Nat.cast_ofNat, Nat.cast_one, div_one]
  · next he =>
    rw [Precision.cast_pow_toNat 10 (by omega), Nat.cast_ofNat, zpow_neg, div_inv_eq_mul]

/-- 400 decimal places reach beyond the range of words at both ends. -/
theorem two_pow_lt_ten_pow : (2 : ℚ) ^ (1075 : ℤ) < 10 ^ (400 : ℤ) := by
  calc (2 : ℚ) ^ (1075 : ℤ) = (2 ^ 43) ^ 25 := by
        rw [← pow_mul]
        rfl
    _ < (10 ^ 16) ^ 25 := pow_lt_pow_left₀ (by norm_num) (by norm_num) (by decide)
    _ = 10 ^ (400 : ℤ) := by
        rw [← pow_mul]
        rfl

theorem le_of_exponent_ge {n : ℕ} (hn : n ≠ 0) {e : ℤ} (he : 400 ≤ e) :
    (2 : ℚ) ^ 1024 ≤ n * 10 ^ e := by
  have hone : (1 : ℚ) ≤ n := by exact_mod_cast Nat.one_le_iff_ne_zero.2 hn
  calc (2 : ℚ) ^ 1024 = 2 ^ (1024 : ℤ) := rfl
    _ ≤ 2 ^ (1075 : ℤ) := zpow_le_zpow_right₀ one_le_two (by decide)
    _ ≤ 10 ^ (400 : ℤ) := two_pow_lt_ten_pow.le
    _ ≤ 10 ^ e := zpow_le_zpow_right₀ (by norm_num) he
    _ ≤ n * 10 ^ e := le_mul_of_one_le_left (by positivity) hone

theorem lt_of_exponent_le {n : ℕ} {e : ℤ} (he : e ≤ -depth n) :
    (n : ℚ) * 10 ^ e < 2 ^ (-1075 : ℤ) := by
  have hdigits : n < 10 ^ (Nat.toDigits 10 n).length :=
    (Nat.length_toDigits_le_iff (by decide) Nat.length_toDigits_pos).1 le_rfl
  have hdigits : (n : ℚ) < 10 ^ ((Nat.toDigits 10 n).length : ℤ) := by
    rw [zpow_natCast]
    exact_mod_cast hdigits
  calc (n : ℚ) * 10 ^ e ≤ n * 10 ^ (-depth n) := by
        gcongr
        norm_num
    _ ≤ 10 ^ ((Nat.toDigits 10 n).length : ℤ) * 10 ^ (-depth n) := by gcongr
    _ = 10 ^ (-400 : ℤ) := by
        rw [← zpow_add₀ (by norm_num), depth]
        congr 1
        ring
    _ < 2 ^ (-1075 : ℤ) := by
        rw [zpow_neg, zpow_neg]
        exact inv_strictAnti₀ (by positivity) two_pow_lt_ten_pow

/-- Cutting exponents changes no word: a decimal number is rounded from its value. -/
theorem toWord_eq_ofValue (d : Decimal) : d.toWord = ofValue d.negative d.value := by
  rw [toWord]
  simp only
  rw [ofRatio_eq_ofValue _ _ d.ratio_snd_pos, ratio_eq, value]
  by_cases hdigits : d.digits = 0
  · rw [hdigits, Nat.cast_zero, zero_mul, zero_mul]
  by_cases hhigh : 400 < d.exponent
  · have hcut : max (-depth d.digits) (min d.exponent 400) = 400 := by
      have : 0 ≤ depth d.digits := by unfold depth; omega
      omega
    rw [hcut, ofValue_of_ge _ (le_of_exponent_ge hdigits le_rfl),
      ofValue_of_ge _ (le_of_exponent_ge hdigits hhigh.le)]
  by_cases hlow : d.exponent < -depth d.digits
  · have hcut : max (-depth d.digits) (min d.exponent 400) = -depth d.digits := by omega
    rw [hcut, ofValue_of_lt _ (by positivity) (lt_of_exponent_le le_rfl),
      ofValue_of_lt _ (by positivity) (lt_of_exponent_le hlow.le)]
  · have hcut : max (-depth d.digits) (min d.exponent 400) = d.exponent := by omega
    rw [hcut]

end Decimal

/-! ## The fewest digits -/

namespace Binary64

theorem value_expansion (x : Binary64) : x.expansion.value = x.value := by
  unfold expansion
  split
  · next hq =>
    rw [Decimal.value, Nat.cast_mul, Precision.cast_pow_toNat 2 hq, Nat.cast_ofNat, zpow_zero,
      mul_one]
    rfl
  · next hq =>
    have hten : (5 : ℚ) ^ (-x.exponent) * 10 ^ x.exponent = 2 ^ x.exponent := by
      rw [show (10 : ℚ) = 5 * 2 by norm_num, mul_zpow, ← mul_assoc, ← zpow_add₀ (by norm_num),
        neg_add_cancel, zpow_zero, one_mul]
    rw [Decimal.value, Nat.cast_mul, Precision.cast_pow_toNat 5 (by omega), Nat.cast_ofNat,
      mul_assoc, hten]
    rfl

theorem negative_expansion (x : Binary64) : x.expansion.negative = x.isNegative := by
  unfold expansion
  split <;> rfl

theorem toWord_expansion {x : Binary64} (h : x.isFinite = true) : x.expansion.toWord = x := by
  rw [Decimal.toWord_eq_ofValue, value_expansion, negative_expansion, ofValue_value h]

/-- A candidate is taken only when it is rounded to the word. -/
theorem toWord_of_onGrid? {x : Binary64} {k : ℤ} {d : Decimal} (h : onGrid? x k = some d) :
    d.toWord = x := by
  unfold onGrid? at h
  simp only at h
  split at h
  · next hbelow habove =>
    split_ifs at h
    · exact Option.some.inj h ▸ of_decide_eq_true hbelow
    · exact Option.some.inj h ▸ of_decide_eq_true habove
    · exact Option.some.inj h ▸ of_decide_eq_true hbelow
    · exact Option.some.inj h ▸ of_decide_eq_true habove
  · next hbelow _ => exact Option.some.inj h ▸ of_decide_eq_true hbelow
  · next _ habove => exact Option.some.inj h ▸ of_decide_eq_true habove
  · cases h

theorem toWord_of_firstGrid? {x : Binary64} {point : ℤ} {steps count : ℕ} {d : Decimal}
    (h : firstGrid? x point steps count = some d) : d.toWord = x := by
  induction steps generalizing count with
  | zero => cases h
  | succ steps ih =>
    rw [firstGrid?] at h
    split at h
    · next hgrid => exact Option.some.inj h ▸ toWord_of_onGrid? hgrid
    · exact ih h

/-- The fewest digits of a finite word are rounded to the word. -/
theorem toWord_shortest {x : Binary64} (h : x.isFinite = true) : x.shortest.toWord = x := by
  unfold shortest
  split
  · next hzero =>
    have hmagnitude : x.magnitude = 0 := of_decide_eq_true hzero
    rw [Decimal.toWord_eq_ofValue, Decimal.value, Nat.cast_zero, zero_mul, ofValue_zero,
      ← hmagnitude, ofMagnitude_magnitude]
  · rcases hgrid : firstGrid? x (decimalPoint x.ratio.1 x.ratio.2) 17 1 with _ | d
    · rw [Option.getD_none, toWord_expansion h]
    · rw [Option.getD_some, toWord_of_firstGrid? hgrid]

end Binary64

/-! ## Digits around a point -/

namespace Json.Numeral

/-- The number that is written. -/
def decimal (n : Numeral) : Decimal := Decimal.ofParts n.negative n.whole n.fraction n.tens

theorem eq_replicate_append_dropZeros (ds : List Char) :
    ds = List.replicate (dropZeros ds).2 '0' ++ (dropZeros ds).1 := by
  induction ds with
  | nil => rfl
  | cons d ds ih =>
    by_cases hd : d = '0'
    · rw [hd, dropZeros]
      exact congrArg ('0' :: ·) ih
    · rw [dropZeros]
      · rfl
      · rintro rest ⟨⟩
        exact hd rfl

theorem ofDigitChars_append_zeros (ds : List Char) (n : ℕ) :
    Nat.ofDigitChars 10 (ds ++ List.replicate n '0') 0 = 10 ^ n * Nat.ofDigitChars 10 ds 0 := by
  rw [Nat.ofDigitChars_append, Nat.ofDigitChars_replicate_zero]

theorem ofDigitChars_zeros_append (ds : List Char) (n : ℕ) :
    Nat.ofDigitChars 10 (List.replicate n '0' ++ ds) 0 = Nat.ofDigitChars 10 ds 0 := by
  rw [Nat.ofDigitChars_append, Nat.ofDigitChars_replicate_zero, Nat.mul_zero]

theorem negative_layOut (negative : Bool) (ds : List Char) (point : ℤ) :
    (layOut negative ds point).decimal.negative = negative := by
  unfold layOut
  split
  · rfl
  · split <;> rfl

/-- However digits are laid out, the point stands where it should. -/
theorem value_layOut (negative : Bool) {ds : List Char} (hds : ds ≠ []) (point : ℤ) :
    (layOut negative ds point).decimal.value =
      Nat.ofDigitChars 10 ds 0 * 10 ^ (point - ds.length) := by
  have hlength : 0 < ds.length := List.length_pos_of_ne_nil hds
  unfold layOut
  split
  · next hplain =>
    -- The digits fill the places before the point, or zeros do after them.
    simp only [decimal, tens, Decimal.value, Decimal.ofParts]
    by_cases hlong : point.toNat < ds.length
    · have hdrop : ds.drop point.toNat ≠ [] := by
        rw [ne_eq, List.drop_eq_nil_iff]
        omega
      have hzeros : (point - ds.length).toNat = 0 := by omega
      rw [if_neg hdrop, hzeros, List.replicate_zero, List.append_nil, List.take_append_drop,
        List.length_drop]
      congr 2
      omega
    · have hdrop : ds.drop point.toNat = [] := List.drop_eq_nil_of_le (by omega)
      have htake : ds.take point.toNat = ds := List.take_of_length_le (by omega)
      obtain ⟨k, hk⟩ : ∃ k : ℕ, point - ds.length = k := ⟨(point - ds.length).toNat, by omega⟩
      rw [if_pos hdrop, htake, hk, Int.toNat_natCast, List.append_assoc, ← List.replicate_succ',
        ofDigitChars_append_zeros, List.length_singleton]
      push_cast
      rw [zpow_natCast, zpow_neg_one, pow_succ]
      ring
  · split
    · next hsmall =>
      simp only [decimal, tens, Decimal.value, Decimal.ofParts]
      rw [← List.append_assoc, ← List.replicate_one, List.replicate_append_replicate,
        ofDigitChars_zeros_append, List.length_append, List.length_replicate]
      congr 2
      omega
    · simp only [decimal, tens, Decimal.value, Decimal.ofParts]
      rw [List.take_append_drop, List.length_drop]
      congr 2
      by_cases hexponent : point - 1 < 0
      · rw [decide_eq_true hexponent]
        simp only
        rw [Nat.ofDigitChars_ten_toDigits]
        omega
      · rw [decide_eq_false hexponent]
        simp only
        rw [Nat.ofDigitChars_ten_toDigits]
        omega

/-- Leaving out the zeros at the end and laying out the rest keeps the value. -/
theorem value_ofDecimal (d : Decimal) : (ofDecimal d).decimal.value = d.value := by
  unfold ofDecimal
  split
  · next hzero =>
    have hdigits : Nat.ofDigitChars 10 ['0', '0'] 0 = 0 := by decide
    simp [Decimal.value, hzero, decimal, tens, Decimal.ofParts, hdigits]
  · next hdigits =>
    have hkept := (isWhole_dropZeros hdigits).1.nonempty
    have hsplit : Nat.toDigits 10 d.digits =
        (dropZeros (Nat.toDigits 10 d.digits).reverse).1.reverse ++
          List.replicate (dropZeros (Nat.toDigits 10 d.digits).reverse).2 '0' := by
      have h := congrArg List.reverse
        (eq_replicate_append_dropZeros (Nat.toDigits 10 d.digits).reverse)
      rwa [List.reverse_reverse, List.reverse_append, List.reverse_replicate] at h
    have hdigits : d.digits = 10 ^ (dropZeros (Nat.toDigits 10 d.digits).reverse).2 *
        Nat.ofDigitChars 10 (dropZeros (Nat.toDigits 10 d.digits).reverse).1.reverse 0 := by
      rw [← ofDigitChars_append_zeros, ← hsplit, Nat.ofDigitChars_ten_toDigits]
    generalize hdropped : dropZeros (Nat.toDigits 10 d.digits).reverse = dropped at *
    obtain ⟨reversed, zeros⟩ := dropped
    simp only at hkept hdigits ⊢
    rw [value_layOut _ hkept, List.length_reverse, Decimal.value, hdigits]
    push_cast
    rw [show (reversed.length : ℤ) + zeros + d.exponent - reversed.length = zeros + d.exponent by
      ring, zpow_add₀ (by norm_num), zpow_natCast]
    ring

theorem negative_ofDecimal (d : Decimal) : (ofDecimal d).decimal.negative = d.negative := by
  unfold ofDecimal
  split
  · rfl
  · exact negative_layOut _ _ _

end Json.Numeral

/-! ## Numerals -/

namespace Binary64

/-- The numeral that is written for a finite word has that word as its nearest one. -/
theorem toWord_numeral {x : Binary64} (h : x.isFinite = true) : x.numeral.decimal.toWord = x := by
  rw [numeral, Decimal.toWord_eq_ofValue, Json.Numeral.value_ofDecimal,
    Json.Numeral.negative_ofDecimal, ← Decimal.toWord_eq_ofValue, toWord_shortest h]

end Binary64

end CircuitCache
