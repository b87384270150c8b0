import Mathlib
import CircuitCache.Proofs.Digits
import CircuitCache.Proofs.Products

/-!
# Words read again

A numeral is read through two roundings, so a finite word may come back as a neighbour.  It comes
back as itself when its digits are few and its exponent is small (`Binary64.readsBack_of_short`),
for then only one rounding matters.  In any case some word comes back (`Binary64.reread?_eq`): the
significand that is read is never above the number that is written, and the two roundings do not
reach infinity from below the greatest words.
-/

namespace CircuitCache

/-! ## Significands -/

namespace Json.Numeral

theorem digit_le {c : Char} (h : c.isDigit = true) : c.toNat - '0'.toNat ≤ 9 := by
  have hle : c.toNat ≤ 57 := (Char.isDigit_iff_toNat.1 h).2
  show c.toNat - 48 ≤ 9
  omega

theorem ofDigitChars_lt {ds : List Char} (h : ∀ c ∈ ds, c.isDigit = true) :
    Nat.ofDigitChars 10 ds 0 < 10 ^ ds.length := by
  induction ds with
  | nil => decide
  | cons d ds ih =>
    rw [List.forall_mem_cons] at h
    have hdigit := Nat.mul_le_mul_left (10 ^ ds.length) (digit_le h.1)
    have hrest := ih h.2
    rw [Nat.ofDigitChars_cons, Nat.ofDigitChars_eq_ofDigitChars_zero, Nat.mul_zero, Nat.zero_add,
      List.length_cons, pow_succ]
    omega

theorem le_ofDigitChars (s : ℕ) (ds : List Char) : s ≤ Nat.ofDigitChars 10 ds s := by
  rw [Nat.ofDigitChars_eq_ofDigitChars_zero]
  have := Nat.le_mul_of_pos_left s (Nat.pow_pos (n := ds.length) (show 0 < 10 by decide))
  omega

/-- The digits that are taken stand before those that are left. -/
theorem exists_taken (s : ℕ) (ds : List Char) :
    ∃ taken, ds = taken ++ (extend s ds).2 ∧ (extend s ds).1 = Nat.ofDigitChars 10 taken s := by
  induction ds generalizing s with
  | nil => exact ⟨[], rfl, rfl⟩
  | cons d ds ih =>
    rw [extend]
    split
    · obtain ⟨taken, hsplit, hvalue⟩ := ih (10 * s + (d.toNat - '0'.toNat))
      refine ⟨d :: taken, ?_, ?_⟩
      · rw [List.cons_append, ← hsplit]
      · rw [hvalue, Nat.ofDigitChars_cons]
    · exact ⟨[], rfl, rfl⟩

/-- Digits whose number fits are all taken. -/
theorem extend_of_lt {s : ℕ} {ds : List Char} (h : Nat.ofDigitChars 10 ds s < UInt64.size) :
    extend s ds = (Nat.ofDigitChars 10 ds s, []) := by
  induction ds generalizing s with
  | nil => rfl
  | cons d ds ih =>
    rw [Nat.ofDigitChars_cons] at h ⊢
    rw [extend, if_pos (lt_of_le_of_lt (le_ofDigitChars _ ds) h), ih h]

/-- Digits are left only where the significand is nearly as great as it can be. -/
theorem extend_snd_eq_nil {s : ℕ} {ds : List Char} (hds : ∀ c ∈ ds, c.isDigit = true)
    (h : (extend s ds).1 < 2 ^ 53) : (extend s ds).2 = [] := by
  induction ds generalizing s with
  | nil => rfl
  | cons d ds ih =>
    rw [List.forall_mem_cons] at hds
    have hdigit := digit_le hds.1
    rw [extend] at h ⊢
    split at h
    · next hlt =>
      rw [if_pos hlt]
      exact ih hds.2 h
    · next hge =>
      simp only at h
      unfold UInt64.size at hge
      omega

/-- A significand that all digits before the point have gone into, and what it leaves out. -/
theorem exists_parts {n : Numeral} (h : (extend 0 n.whole).2 = []) :
    ∃ taken rest, n.fraction = taken ++ rest ∧
      n.parts = (Nat.ofDigitChars 10 (n.whole ++ taken) 0, n.tens - taken.length) ∧
      (extend (extend 0 n.whole).1 n.fraction).2 = rest := by
  obtain ⟨whole, hwhole, hnumber⟩ := exists_taken 0 n.whole
  rw [h, List.append_nil] at hwhole
  obtain ⟨taken, hsplit, hsignificand⟩ := exists_taken (extend 0 n.whole).1 n.fraction
  have hlength := congrArg List.length hsplit
  rw [List.length_append] at hlength
  have hexponent : n.tens + ((extend 0 n.whole).2.length : ℤ) -
      (n.fraction.length - (extend (extend 0 n.whole).1 n.fraction).2.length) =
        n.tens - taken.length := by
    rw [h, List.length_nil]
    omega
  refine ⟨taken, _, hsplit, Prod.ext ?_ hexponent, rfl⟩
  show (extend (extend 0 n.whole).1 n.fraction).1 = _
  rw [hsignificand, hnumber, ← hwhole, Nat.ofDigitChars_append]

/-- The significand is never above the number that is written. -/
theorem parts_le_value {n : Numeral} (h : (extend 0 n.whole).2 = []) :
    (n.parts.1 : ℚ) * 10 ^ n.parts.2 ≤ n.decimal.value := by
  obtain ⟨taken, rest, hsplit, hparts, -⟩ := exists_parts h
  have hshift : n.tens - taken.length = rest.length + (n.tens - n.fraction.length) := by
    rw [hsplit, List.length_append]
    push_cast
    ring
  rw [hparts, hshift, zpow_add₀ (by norm_num), zpow_natCast, ← mul_assoc, decimal, Decimal.value,
    Decimal.ofParts]
  gcongr
  rw [hsplit, ← List.append_assoc, Nat.ofDigitChars_append (l := n.whole ++ taken),
    Nat.ofDigitChars_eq_ofDigitChars_zero (l := rest)]
  push_cast
  rw [mul_comm]
  exact le_add_of_nonneg_right (Nat.cast_nonneg _)

/-- A small significand leaves nothing out. -/
theorem parts_eq_value {n : Numeral} (hn : n.Legible) (h : n.parts.1 < 2 ^ 53) :
    (n.parts.1 : ℚ) * 10 ^ n.parts.2 = n.decimal.value := by
  have hfraction : (extend (extend 0 n.whole).1 n.fraction).2 = [] :=
    extend_snd_eq_nil hn.fraction h
  have hwhole : (extend 0 n.whole).2 = [] := by
    refine extend_snd_eq_nil hn.whole.digits (lt_of_le_of_lt ?_ h)
    obtain ⟨taken, -, hsignificand⟩ := exists_taken (extend 0 n.whole).1 n.fraction
    show _ ≤ (extend (extend 0 n.whole).1 n.fraction).1
    rw [hsignificand]
    exact le_ofDigitChars _ taken
  obtain ⟨taken, rest, hsplit, hparts, hrest⟩ := exists_parts hwhole
  rw [← hrest, hfraction, List.append_nil] at hsplit
  rw [hparts, decimal, Decimal.value, Decimal.ofParts, hsplit]

/-! ### Written numerals -/

theorem length_whole_layOut_le (negative : Bool) (ds : List Char) (point : ℤ) :
    (layOut negative ds point).whole.length ≤ 16 := by
  unfold layOut
  split
  · simp only [List.length_append, List.length_take, List.length_replicate]
    omega
  · split
    · exact Nat.le_of_ble_eq_true rfl
    · simp only [List.length_take]
      omega

/-- All digits before the point of a written numeral fit a significand. -/
theorem extend_whole_ofDecimal (d : Decimal) : (extend 0 (ofDecimal d).whole).2 = [] := by
  have hlength : (ofDecimal d).whole.length ≤ 16 := by
    unfold ofDecimal
    split
    · exact Nat.le_of_ble_eq_true rfl
    · exact length_whole_layOut_le _ _ _
  have hlt : Nat.ofDigitChars 10 (ofDecimal d).whole 0 < UInt64.size :=
    calc Nat.ofDigitChars 10 (ofDecimal d).whole 0
        < 10 ^ (ofDecimal d).whole.length := ofDigitChars_lt (legible_ofDecimal d).whole.digits
      _ ≤ 10 ^ 16 := Nat.pow_le_pow_right (by decide) hlength
      _ < UInt64.size := by decide
  rw [extend_of_lt hlt]

end Json.Numeral

/-! ## Powers of ten -/

namespace Binary64

theorem ofNat_eq_ofValue (n : ℕ) : ofNat n = ofValue false n := by
  rw [ofNat, ofRatio_eq_ofValue _ _ Nat.one_pos, Nat.cast_one, div_one]

theorem tenTo_eq_ofValue (k : ℕ) : tenTo k = ofValue false (10 ^ k) := by
  rw [tenTo, ofNat_eq_ofValue, Nat.pow_eq, Nat.cast_pow, Nat.cast_ofNat]

theorem isNegative_tenTo (k : ℕ) : (tenTo k).isNegative = false := by
  rw [tenTo_eq_ofValue, isNegative_ofValue]

/-- Words up to this value are far enough from infinity for two more roundings. -/
@[irreducible] def safeBound : ℕ := (2 ^ 53 - 3) * 2 ^ 971

theorem cast_safeBound : (safeBound : ℚ) = (2 ^ 53 - 3) * 2 ^ (971 : ℤ) := by
  have hcast : ((2 ^ 53 - 3 : ℕ) : ℚ) = 2 ^ 53 - 3 := by norm_num
  unfold safeBound
  rw [Nat.cast_mul, hcast, Nat.cast_pow, Nat.cast_ofNat, zpow_ofNat]

/-- Two roundings from the bound do not reach beyond the greatest finite value. -/
theorem safeBound_mul_le :
    (safeBound : ℚ) * (1 + 2 ^ (-53 : ℤ)) ^ 2 ≤ (2 ^ 53 - 1) * 2 ^ (971 : ℤ) := by
  calc (safeBound : ℚ) * (1 + 2 ^ (-53 : ℤ)) ^ 2
      = (2 ^ 53 - 3) * (1 + 2 ^ (-53 : ℤ)) ^ 2 * 2 ^ (971 : ℤ) := by
        rw [cast_safeBound]
        ring
    _ ≤ (2 ^ 53 - 1) * 2 ^ (971 : ℤ) := by
        gcongr
        norm_num

theorem isFinite_ofValue_of_le_safeBound {negative : Bool} {v : ℚ} (hv : 0 ≤ v)
    (h : v ≤ safeBound) : (ofValue negative v).isFinite = true := by
  refine isFinite_ofValue_of_le hv (h.trans ?_)
  rw [cast_safeBound]
  gcongr
  norm_num

theorem ten_pow_le_safeBound {k : ℕ} (hk : k ≤ greatestTen) : (10 : ℚ) ^ k ≤ safeBound := by
  have hgreatest : 10 ^ greatestTen ≤ safeBound := by decide +kernel
  exact_mod_cast (Nat.pow_le_pow_right (by decide) hk).trans hgreatest

theorem safeBound_lt_ten_pow {k : ℕ} (hk : greatestTen < k) : (safeBound : ℚ) < 10 ^ k := by
  have hnext : safeBound < 10 ^ (greatestTen + 1) := by decide +kernel
  exact_mod_cast hnext.trans_le (Nat.pow_le_pow_right (by decide) hk)

theorem isFinite_tenTo {k : ℕ} (hk : k ≤ greatestTen) : (tenTo k).isFinite = true := by
  rw [tenTo_eq_ofValue]
  exact isFinite_ofValue_of_le_safeBound (by positivity) (ten_pow_le_safeBound hk)

theorem value_tenTo_le {k : ℕ} (hk : k ≤ greatestTen) :
    (tenTo k).value ≤ 10 ^ k * (1 + 2 ^ (-53 : ℤ)) := by
  have hfinite := isFinite_tenTo hk
  rw [tenTo_eq_ofValue] at hfinite ⊢
  exact value_ofValue_le (one_le_pow₀ (by norm_num)) hfinite

theorem isFinite_ofNat {s : ℕ} (h : (s : ℚ) ≤ safeBound) : (ofNat s).isFinite = true := by
  rw [ofNat_eq_ofValue]
  exact isFinite_ofValue_of_le_safeBound (Nat.cast_nonneg s) h

theorem value_ofNat_le {s : ℕ} (h : (s : ℚ) ≤ safeBound) :
    (ofNat s).value ≤ s * (1 + 2 ^ (-53 : ℤ)) := by
  have hfinite := isFinite_ofNat h
  rw [ofNat_eq_ofValue] at hfinite ⊢
  rcases Nat.eq_zero_or_pos s with rfl | hs
  · rw [Nat.cast_zero, ofValue_zero, zero_mul]
    exact (value_ofMagnitude_zero false).le
  · exact value_ofValue_le (by exact_mod_cast hs) hfinite

/-! ## Some word comes back -/

theorem value_nonneg (x : Binary64) : 0 ≤ x.value :=
  mul_nonneg (Nat.cast_nonneg _) (zpow_nonneg zero_le_two _)

/-- A product within the bound stays finite, although its factors are rounded before. -/
theorem isFinite_times_tenTo {s k : ℕ} (hk : k ≤ greatestTen)
    (h : (s : ℚ) * 10 ^ k ≤ safeBound) : ((ofNat s).times (tenTo k)).isFinite = true := by
  have hs : (s : ℚ) ≤ safeBound :=
    le_trans (le_mul_of_one_le_right (Nat.cast_nonneg s) (one_le_pow₀ (by norm_num))) h
  rw [times_eq_ofValue]
  refine isFinite_ofValue_of_le (mul_nonneg (value_nonneg _) (value_nonneg _)) ?_
  calc (ofNat s).value * (tenTo k).value
      ≤ s * (1 + 2 ^ (-53 : ℤ)) * (10 ^ k * (1 + 2 ^ (-53 : ℤ))) :=
        mul_le_mul (value_ofNat_le hs) (value_tenTo_le hk) (value_nonneg _) (by positivity)
    _ = s * 10 ^ k * (1 + 2 ^ (-53 : ℤ)) ^ 2 := by ring
    _ ≤ safeBound * (1 + 2 ^ (-53 : ℤ)) ^ 2 := by gcongr
    _ ≤ (2 ^ 53 - 1) * 2 ^ (971 : ℤ) := safeBound_mul_le

theorem timesTenTo?_natCast {s k : ℕ} (hk : k ≤ greatestTen) (h : (s : ℚ) * 10 ^ k ≤ safeBound) :
    (ofNat s).timesTenTo? k = some ((ofNat s).times (tenTo k)) := by
  rw [timesTenTo?, if_pos (Nat.cast_nonneg k), if_pos (Nat.cast_le.2 hk), Int.toNat_natCast,
    Option.filter_some, if_pos (isFinite_times_tenTo hk h)]

/-- A significand whose number is within the bound is read without reaching infinity. -/
theorem isSome_timesTenTo? {s : ℕ} {e : ℤ} (h : (s : ℚ) * 10 ^ e ≤ safeBound) :
    ((ofNat s).timesTenTo? e).isSome = true := by
  by_cases he : 0 ≤ e
  · obtain ⟨k, rfl⟩ := Int.eq_ofNat_of_zero_le he
    rw [zpow_natCast] at h
    by_cases hk : k ≤ greatestTen
    · rw [timesTenTo?_natCast hk h]
      rfl
    · -- Beyond the greatest power of ten only zero is within the bound.
      have hzero : s = 0 := by
        by_contra hne
        have hone : (1 : ℚ) ≤ s := by exact_mod_cast Nat.one_le_iff_ne_zero.2 hne
        have hle : (10 : ℚ) ^ k ≤ s * 10 ^ k := le_mul_of_one_le_left (by positivity) hone
        exact absurd (hle.trans h) (not_le.2 (safeBound_lt_ten_pow (Nat.not_le.1 hk)))
      rw [timesTenTo?, if_pos he, if_neg (mt Nat.cast_le.1 hk), hzero]
      rfl
  · rw [timesTenTo?, if_neg he]
    rfl

/-- The greatest words one by one: what is written for each is read as some word. -/
theorem isSome_word?_greatest (negative : Bool) {k : ℕ} (hk : k < 3) :
    ((ofMagnitude negative (infiniteMagnitude - 1 - k)).numeral.word?).isSome = true := by
  have hall : ∀ k < 3,
      ((ofMagnitude negative (infiniteMagnitude - 1 - k)).numeral.word?).isSome = true := by
    cases negative <;> decide +kernel
  exact hall k hk

/-- What is written for a finite word is read as some word. -/
theorem isSome_word?_numeral {x : Binary64} (h : x.isFinite = true) :
    x.numeral.word?.isSome = true := by
  have hmagnitude : x.magnitude < infiniteMagnitude := of_decide_eq_true h
  by_cases hgreat : infiniteMagnitude - 3 ≤ x.magnitude
  · have hword : x = ofMagnitude x.isNegative
        (infiniteMagnitude - 1 - (infiniteMagnitude - 1 - x.magnitude)) := by
      rw [Nat.sub_sub_self (by omega), ofMagnitude_magnitude]
    rw [hword]
    exact isSome_word?_greatest x.isNegative (by unfold infiniteMagnitude at *; omega)
  · -- A number above the bound would be rounded to one of the greatest words.
    have hvalue : x.numeral.decimal.value ≤ safeBound := by
      by_contra hgt
      rw [not_le, cast_safeBound] at hgt
      have hcast : (2 ^ 53 - 3 : ℚ) = ((2 ^ 53 - 3 : ℕ) : ℚ) := by norm_num
      rw [hcast] at hgt
      have hle := le_magnitude_ofValue x.numeral.decimal.negative (by decide) le_rfl (by decide)
        (by decide) hgt.le
      rw [← Decimal.toWord_eq_ofValue, toWord_numeral h] at hle
      refine hgreat (le_trans ?_ hle)
      decide
    rw [Json.Numeral.word?, Option.isSome_map]
    refine isSome_timesTenTo? (le_trans (Json.Numeral.parts_le_value ?_) hvalue)
    exact Json.Numeral.extend_whole_ofDecimal x.shortest

/-! ## Few digits and small exponents -/

/-- A power of ten that a word holds. -/
theorem value_tenTo {k : ℕ} (hk : k ≤ 22) : (tenTo k).value = 10 ^ k := by
  have hfive : 5 ^ k < 2 ^ 53 :=
    lt_of_le_of_lt (Nat.pow_le_pow_right (by decide) hk) (by decide)
  have hten : (10 : ℚ) ^ k = (5 ^ k : ℕ) * 2 ^ (k : ℤ) := by
    rw [Nat.cast_pow, Nat.cast_ofNat, zpow_natCast, ← mul_pow]
    norm_num
  have hfinite := isFinite_tenTo (hk.trans (by decide))
  rw [tenTo_eq_ofValue, hten] at hfinite ⊢
  exact value_ofValue_of_exact hfive (by omega) hfinite

theorem value_ofNat {s : ℕ} (hs : s < 2 ^ 53) : (ofNat s).value = s := by
  have hexact : (s : ℚ) = s * 2 ^ (0 : ℤ) := by rw [zpow_zero, mul_one]
  have hle : (s : ℚ) ≤ safeBound := by
    refine le_trans ?_ (ten_pow_le_safeBound (k := 16) (by decide))
    exact_mod_cast hs.le.trans (by decide)
  have hfinite := isFinite_ofNat hle
  rw [ofNat_eq_ofValue] at hfinite ⊢
  rw [hexact] at hfinite ⊢
  exact value_ofValue_of_exact hs (by decide) hfinite

/-- Of a small significand and a small exponent only the last rounding matters. -/
theorem timesTenTo?_eq_ofValue {s : ℕ} (hs : s < 2 ^ 53) {e : ℤ} (he : e.natAbs ≤ 22) :
    (ofNat s).timesTenTo? e = some (ofValue false (s * 10 ^ e)) := by
  have hsign : (ofNat s).isNegative = false := by rw [ofNat_eq_ofValue, isNegative_ofValue]
  by_cases hsmall : 0 ≤ e
  · obtain ⟨k, rfl⟩ := Int.eq_ofNat_of_zero_le hsmall
    have hk : k ≤ 22 := he
    have hle : (s : ℚ) * 10 ^ k ≤ safeBound :=
      calc (s : ℚ) * 10 ^ k ≤ 10 ^ 16 * 10 ^ 22 := by
            gcongr
            · exact_mod_cast hs.le.trans (by decide)
            · norm_num
        _ = 10 ^ 38 := by norm_num
        _ ≤ safeBound := ten_pow_le_safeBound (by decide)
    rw [timesTenTo?_natCast (hk.trans (by decide)) hle, times_eq_ofValue, hsign, isNegative_tenTo,
      value_ofNat hs, value_tenTo hk, zpow_natCast]
    rfl
  · obtain ⟨k, rfl⟩ : ∃ k : ℕ, e = -k := ⟨(-e).toNat, by omega⟩
    have hk : k ≤ 22 := by omega
    have hsteps : (k - 1) / greatestTen = 0 := Nat.div_eq_of_lt (by unfold greatestTen; omega)
    have hpositive : 0 < (tenTo k).value := by
      rw [value_tenTo hk]
      positivity
    rw [timesTenTo?, if_neg hsmall, neg_neg, Int.toNat_natCast]
    simp only [hsteps, sink, Nat.mul_zero, Nat.sub_zero]
    rw [dividedBy_eq_ofValue _ hpositive, hsign, isNegative_tenTo, value_ofNat hs, value_tenTo hk,
      zpow_neg, zpow_natCast, div_eq_mul_inv]
    rfl

end Binary64

/-- A numeral of few digits and a small exponent is read as the nearest word. -/
theorem Json.Numeral.word?_eq_toWord {n : Numeral} (hn : n.Legible) (hdigits : n.parts.1 < 2 ^ 53)
    (hexponent : n.parts.2.natAbs ≤ 22) : n.word? = some n.decimal.toWord := by
  rw [word?, Binary64.timesTenTo?_eq_ofValue hdigits hexponent, Option.map_some,
    Binary64.ofMagnitude_magnitude_ofValue, parts_eq_value hn hdigits, Decimal.toWord_eq_ofValue]
  rfl

namespace Binary64

/-! ## Words that come back -/

/-- The numeral that is written for a finite word is read as this word. -/
def ReadsBack (x : Binary64) : Prop := x.numeral.word? = some x

instance (x : Binary64) : Decidable x.ReadsBack := inferInstanceAs (Decidable (_ = _))

/-- Up to fifteen digits or so, with an exponent of at most 22, come back. -/
theorem readsBack_of_short {x : Binary64} (h : x.isFinite = true)
    (hdigits : x.numeral.parts.1 < 2 ^ 53) (hexponent : x.numeral.parts.2.natAbs ≤ 22) :
    x.ReadsBack := by
  rw [ReadsBack, Json.Numeral.word?_eq_toWord x.legible_numeral hdigits hexponent,
    toWord_numeral h]

/-- Beyond that a word may come back, as the least one does through two divisions, or may not. -/
example : ReadsBack ⟨1⟩ ∧ ¬ ReadsBack ⟨0x40499FC44F1B2F60⟩ := by decide +kernel

/-- The word that comes back. -/
def settled (x : Binary64) : Binary64 := x.reread?.getD x

/-- All words that are not numbers taken as one of them. -/
def canonical (x : Binary64) : Binary64 := if x.isNaN then nan false else x

theorem eq_infinity {x : Binary64} (hfinite : x.isFinite = false) (hnan : x.isNaN = false) :
    x = infinity x.isNegative := by
  have hge : infiniteMagnitude ≤ x.magnitude := Nat.not_lt.1 (of_decide_eq_false hfinite)
  have hle : x.magnitude ≤ infiniteMagnitude := Nat.not_lt.1 (of_decide_eq_false hnan)
  rw [infinity, ← le_antisymm hle hge, ofMagnitude_magnitude]

theorem isNaN_of_isFinite {x : Binary64} (h : x.isFinite = true) : x.isNaN = false := by
  have hlt : x.magnitude < infiniteMagnitude := of_decide_eq_true h
  exact decide_eq_false (by omega)

theorem ofJson?_text (s : String) :
    ofJson? (.text s) = (ofText? s).filter fun x => !x.isFinite := by
  rw [Json.Value.text, ofJson?, Json.textOf?_written, Option.bind_some]

theorem reread?_of_isFinite {x : Binary64} (h : x.isFinite = true) :
    x.reread? = x.numeral.word? := by
  rw [reread?, toJson, if_pos h, ofJson?]

/-- A word that is not finite comes back by its name. -/
theorem reread?_of_not_isFinite {x : Binary64} (h : x.isFinite = false) :
    x.reread? = some x.canonical := by
  rw [reread?, toJson, canonical, if_neg (ne_true_of_eq_false h)]
  cases hnan : x.isNaN
  · rw [if_neg Bool.false_ne_true, if_neg Bool.false_ne_true]
    have hinfinity := eq_infinity h hnan
    cases hsign : x.isNegative
    · rw [if_neg Bool.false_ne_true, ofJson?_text, hinfinity, hsign]
      decide
    · rw [if_pos rfl, ofJson?_text, hinfinity, hsign]
      decide
  · rw [if_pos rfl, if_pos rfl, ofJson?_text]
    decide

/-- Some word comes back for every word. -/
theorem reread?_eq (x : Binary64) : x.reread? = some x.settled := by
  have hsome : x.reread?.isSome = true := by
    cases hfinite : x.isFinite
    · rw [reread?_of_not_isFinite hfinite]
      rfl
    · rw [reread?_of_isFinite hfinite]
      exact isSome_word?_numeral hfinite
  obtain ⟨y, hy⟩ := Option.isSome_iff_exists.1 hsome
  rw [settled, hy, Option.getD_some]

/-- A word comes back as it was, up to which of the words that are not numbers it is, exactly when
it is not finite or its numeral is read as the word. -/
theorem settled_eq_canonical_iff {x : Binary64} :
    x.settled = x.canonical ↔ (x.isFinite = true → x.ReadsBack) := by
  cases hfinite : x.isFinite
  · have hword := (x.reread?_eq).symm.trans (reread?_of_not_isFinite hfinite)
    simp [Option.some.inj hword]
  · have hword := (x.reread?_eq).symm.trans (reread?_of_isFinite hfinite)
    have hcanonical : x.canonical = x := by
      rw [canonical, isNaN_of_isFinite hfinite, if_neg Bool.false_ne_true]
    rw [hcanonical, ReadsBack, ← hword, Option.some_inj]
    simp

end Binary64

end CircuitCache
