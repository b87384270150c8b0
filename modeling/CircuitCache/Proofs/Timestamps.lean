import Mathlib
import CircuitCache.Instant.Reader
import CircuitCache.Proofs.JsonText

/-!
# Instants read back

The reader of instants is free in what it takes, the writer is not. A valid instant is read back
from what is written for it (`Instant.ofText?_textZulu`): each number has as many digits as the
reader may take, or stands before a character that is no digit.
-/

namespace CircuitCache.Instant

open Json (NoDigit splitDigits_append)

/-- A day of the calendar in a year that may be read, a time of day, and a fraction of a second. -/
structure IsValid (t : Instant) : Prop where
  date : t.date.isValid = true
  year : yearInRange t.date.year = true
  hour : t.hour < 24
  minute : t.minute < 60
  second : t.second ≤ 60
  nanosecond : t.nanosecond < 10 ^ 9

/-! ## Numbers -/

theorem not_isBlank_of_isDigit {c : Char} (h : c.isDigit = true) : Text.isBlank c = false := by
  rw [Char.isDigit, Bool.and_eq_true, decide_eq_true_eq, decide_eq_true_eq] at h
  have hlow : 48 ≤ c.toNat := UInt32.le_iff_toNat_le.1 h.1
  have hhigh : c.toNat ≤ 57 := UInt32.le_iff_toNat_le.1 h.2
  simp only [Text.isBlank, Text.blankRanges, List.any_cons, List.any_nil, Bool.or_false,
    Bool.or_eq_false_iff, decide_eq_false_iff_not]
  omega

theorem skipBlank_cons {c : Char} (h : Text.isBlank c = false) (cs : List Char) :
    Text.skipBlank (c :: cs) = c :: cs := by
  rw [Text.skipBlank, List.dropWhile_cons_of_neg (by rw [h]; exact Bool.false_ne_true)]

/-- White space is not skipped before digits. -/
theorem skipBlank_append {ds : List Char} (hds : ∀ c ∈ ds, c.isDigit = true) (hne : ds ≠ [])
    (rest : List Char) : Text.skipBlank (ds ++ rest) = ds ++ rest := by
  obtain ⟨d, ds, rfl⟩ := List.exists_cons_of_ne_nil hne
  exact skipBlank_cons (not_isBlank_of_isDigit (hds d List.mem_cons_self)) (ds ++ rest)

theorem isDigit_of_mem_padded {width n : ℕ} : ∀ c ∈ padded width n, c.isDigit = true := by
  intro c hc
  rcases List.mem_append.1 hc with hc | hc
  · rw [List.eq_of_mem_replicate hc]
    rfl
  · exact Nat.isDigit_of_mem_toDigits (by decide) (by decide) hc

theorem padded_ne_nil (width n : ℕ) : padded width n ≠ [] :=
  List.append_ne_nil_of_right_ne_nil _ Nat.toDigits_ne_nil

theorem ofDigitChars_padded (width n : ℕ) : Nat.ofDigitChars 10 (padded width n) 0 = n := by
  rw [padded, Nat.ofDigitChars_append, Nat.ofDigitChars_replicate_zero, Nat.mul_zero,
    Nat.ofDigitChars_ten_toDigits]

theorem length_padded {width n : ℕ} (hwidth : 0 < width) (hn : n < 10 ^ width) :
    (padded width n).length = width := by
  have hle := (Nat.length_toDigits_le_iff (b := 10) (by decide) hwidth).2 hn
  rw [padded]
  simp only [List.length_append, List.length_replicate]
  omega

/-- A number that fills its width is read, whatever follows. -/
theorem readNumber_padded {width n : ℕ} (hwidth : 0 < width) (hn : n < 10 ^ width)
    (rest : List Char) : readNumber width (padded width n ++ rest) = some (n, rest) := by
  have hlength := length_padded hwidth hn
  have htake : (padded width n ++ rest).take width = padded width n := List.take_left' hlength
  have hdigits : (padded width n).takeWhile Char.isDigit = padded width n :=
    List.takeWhile_eq_self_iff.2 isDigit_of_mem_padded
  rw [readNumber, skipBlank_append isDigit_of_mem_padded (padded_ne_nil width n)]
  simp only [htake, hdigits]
  rw [if_neg (padded_ne_nil width n), ofDigitChars_padded, List.drop_left]

/-- A number of any length is read up to what is no digit. -/
theorem readLong_padded (width n : ℕ) {rest : List Char} (hrest : NoDigit rest) :
    readLong (padded width n ++ rest) = some (n, rest) := by
  rw [readLong, splitDigits_append isDigit_of_mem_padded hrest]
  split
  · next heq => exact absurd (congrArg Prod.fst heq) (padded_ne_nil width n)
  · next heq =>
    rw [Prod.mk.injEq] at heq
    rw [← heq.1, ← heq.2, ofDigitChars_padded]

theorem readMark_cons {mark : Char} (h : Text.isBlank mark = false) (rest : List Char) :
    readMark mark (mark :: rest) = some rest := by
  rw [readMark, skipBlank_cons h]
  simp

/-! ## Dates and times -/

theorem readYear_printYear {year : ℤ} {rest : List Char} (hrest : NoDigit rest) :
    readYear (printYear year ++ rest) = some (year, rest) := by
  unfold printYear
  by_cases hshort : 0 ≤ year ∧ year ≤ 9999
  · rw [if_pos hshort]
    have hn : year.toNat < 10 ^ 4 := by omega
    have hread := readNumber_padded (by decide) hn rest
    obtain ⟨d, ds, hcons⟩ := List.exists_cons_of_ne_nil (padded_ne_nil 4 year.toNat)
    have hd : d.isDigit = true := isDigit_of_mem_padded d (hcons ▸ List.mem_cons_self)
    rw [readYear, skipBlank_append isDigit_of_mem_padded (padded_ne_nil 4 year.toNat)]
    rw [hcons, List.cons_append] at hread ⊢
    split
    · next heq => rw [(List.cons.inj heq).1] at hd; cases hd
    · next heq => rw [(List.cons.inj heq).1] at hd; cases hd
    · simp only [hread, Option.map_some, Int.toNat_of_nonneg hshort.1]
  · rw [if_neg hshort]
    by_cases hsign : year < 0
    · rw [if_pos hsign, List.cons_append, readYear, skipBlank_cons (by decide)]
      simp only [readLong_padded 4 _ hrest, Option.map_some]
      rw [Int.ofNat_natAbs_of_nonpos hsign.le, neg_neg]
    · rw [if_neg hsign, List.cons_append, readYear, skipBlank_cons (by decide)]
      simp only [readLong_padded 4 _ hrest, Option.map_some]
      rw [Int.natAbs_of_nonneg (not_lt.1 hsign)]

theorem readFraction_printFraction {n : ℕ} (hn : n < 10 ^ 9) {rest : List Char}
    (hrest : NoDigit rest) (hpoint : rest.head? ≠ some '.') :
    readFraction (printFraction n ++ rest) = some (n, rest) := by
  -- The digits of each width stand for as many places of the nine.
  have hplaces {width m : ℕ} (hwidth : 0 < width) (hle : width ≤ 9) (hm : m < 10 ^ width) :
      readFraction ('.' :: padded width m ++ rest) = some (m * 10 ^ (9 - width), rest) := by
    have hlength := length_padded hwidth hm
    have htake : (padded width m).take 9 = padded width m := List.take_of_length_le (by omega)
    rw [List.cons_append, readFraction, splitDigits_append isDigit_of_mem_padded hrest]
    split
    · next heq => exact absurd (congrArg Prod.fst heq) (padded_ne_nil width m)
    · next heq =>
      rw [Prod.mk.injEq] at heq
      rw [← heq.1, ← heq.2]
      simp only [htake, ofDigitChars_padded, hlength]
      rfl
  unfold printFraction
  split
  · next hzero =>
    rw [List.nil_append, hzero]
    cases rest with
    | nil => rfl
    | cons c rest =>
      rw [readFraction]
      rintro cs ⟨⟩
      exact hpoint rfl
  · split
    · next hmilli =>
      rw [hplaces (by decide) (by decide) (by omega)]
      congr 2
      omega
    · split
      · next hmicro =>
        rw [hplaces (by decide) (by decide) (by omega)]
        congr 2
        omega
      · rw [hplaces (by decide) (by decide) hn, Nat.sub_self, Nat.pow_zero, Nat.mul_one]

theorem ofLocal_zero {t : Instant} (hhour : t.hour < 24) (hminute : t.minute < 60) :
    ofLocal t.date t.hour t.minute t.second t.nanosecond 0 = t := by
  have hstart : ¬((t.hour * 60 + t.minute : ℕ) : ℤ) - 0 < 0 := by omega
  have hend : ¬(1440 : ℤ) ≤ ((t.hour * 60 + t.minute : ℕ) : ℤ) - 0 := by omega
  have hhours : (((t.hour * 60 + t.minute : ℕ) : ℤ) - 0).toNat / 60 = t.hour := by omega
  have hminutes : (((t.hour * 60 + t.minute : ℕ) : ℤ) - 0).toNat % 60 = t.minute := by omega
  rw [ofLocal]
  simp only [if_neg hstart, if_neg hend, hhours, hminutes]

/-- A valid instant is read back from what is written for it. -/
theorem ofText?_textZulu {t : Instant} (h : t.IsValid) : ofText? t.textZulu = some t := by
  obtain ⟨-, hmonthHigh, -, hdayHigh⟩ := of_decide_eq_true h.date
  have hmonth : t.date.month < 10 ^ 2 := by omega
  have hdash : Text.isBlank '-' = false := by decide
  have hday : t.date.day < 10 ^ 2 := by
    have hdays : Date.daysIn t.date.year t.date.month ≤ 31 := by
      unfold Date.daysIn
      split_ifs <;> omega
    omega
  have hyear (rest : List Char) : readYear (printYear t.date.year ++ '-' :: rest) =
      some (t.date.year, '-' :: rest) := by
    refine readYear_printYear fun c hc => ?_
    rw [List.head?_cons, Option.mem_some_iff] at hc
    exact hc ▸ rfl
  have hfraction : readFraction (printFraction t.nanosecond ++ ['Z']) =
      some (t.nanosecond, ['Z']) := by
    refine readFraction_printFraction h.nanosecond (fun c hc => ?_) (by decide)
    rw [List.head?_cons, Option.mem_some_iff] at hc
    exact hc ▸ rfl
  have hdate (rest : List Char) : readDate (printYear t.date.year ++
      '-' :: (padded 2 t.date.month ++ '-' :: (padded 2 t.date.day ++ rest))) =
        some (t.date, rest) := by
    rw [readDate, hyear]
    simp only [Option.bind_eq_bind, Option.bind_some, readMark_cons hdash,
      readNumber_padded Nat.two_pos hmonth, readNumber_padded Nat.two_pos hday]
    exact if_pos ⟨h.year, h.date⟩
  have hprint : t.textZulu.toList = printYear t.date.year ++ '-' :: (padded 2 t.date.month ++
      '-' :: (padded 2 t.date.day ++ 'T' :: (padded 2 t.hour ++ ':' :: (padded 2 t.minute ++
        ':' :: (padded 2 t.second ++ (printFraction t.nanosecond ++ ['Z'])))))) := by
    simp [textZulu, printLocal]
  have hcolon : Text.isBlank ':' = false := by decide
  have hhour := h.hour
  have hminute := h.minute
  have hsecond := h.second
  have htwo (n : ℕ) (hn : n ≤ 60) (rest : List Char) :
      readNumber 2 (padded 2 n ++ rest) = some (n, rest) :=
    readNumber_padded (by decide) (by omega) rest
  have hoffset : readOffset (Text.skipBlank ['Z']) = some (0, []) := by decide
  rw [ofText?, hprint, hdate]
  simp only [Option.bind_eq_bind, Option.bind_some, readSeparator, true_or, if_true,
    readMark_cons hcolon, htwo t.hour (by omega), htwo t.minute (by omega), htwo t.second hsecond,
    hfraction, hoffset]
  rw [if_pos ⟨hhour, hminute, hsecond, rfl⟩, ofLocal_zero hhour hminute]

end CircuitCache.Instant
