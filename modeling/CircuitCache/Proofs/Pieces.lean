import Mathlib
import CircuitCache.Partition
import CircuitCache.Proofs.Addresses

/-!
# Pieces of a batch

A batch is cut into pieces that follow each other without gaps, all but the last of the full width
(`Cuts`), and there is one way to do so (`Cuts.eq_split`).  Program `i` is in piece `i / width`
alone.  For a batch that fits in memory the splitting can be done in words: no sum that it forms is
too large for one (`splitChecked_eq`).
-/

namespace CircuitCache.Piece

/-! ## Pieces by number -/

/-- Piece `i` of a batch that is cut after every `width` programs. -/
def nth (count width i : ℕ) : Piece := ⟨i, i * width, min ((i + 1) * width) count⟩

variable {count limit chunk start i : ℕ} {p : Piece}

theorem width_pos (limit : ℕ) : 0 < width limit := lt_max_of_lt_right Nat.one_pos

/-- The splitting takes one step of the full width after the other. -/
theorem getElem?_splitFrom (count limit chunk start i : ℕ) :
    (splitFrom count limit chunk start)[i]? =
      if start + i * width limit < count then
        some ⟨chunk + i, start + i * width limit, min (start + (i + 1) * width limit) count⟩
      else none := by
  induction i generalizing chunk start with
  | zero =>
    obtain h | h := lt_or_ge start count
    · simp [splitFrom_of_lt h, h]
    · simp [splitFrom_of_le h, h]
  | succ i ih =>
    obtain h | h := lt_or_ge start count
    · have hstep (k : ℕ) : start + width limit + k * width limit = start + (k + 1) * width limit := by
        ring
      rw [splitFrom_of_lt h, List.getElem?_cons_succ, ih, hstep, hstep, Nat.add_right_comm chunk 1,
        Nat.add_assoc chunk]
    · have hstep := Nat.le_add_right start ((i + 1) * width limit)
      rw [splitFrom_of_le h, List.getElem?_nil, if_neg (by omega)]

theorem getElem?_split_eq_some_iff : (split count limit)[i]? = some p ↔
    i * width limit < count ∧ p = nth count (width limit) i := by
  rw [split, getElem?_splitFrom]
  simp only [Nat.zero_add, nth]
  split_ifs with h
  · simp [h, eq_comm]
  · simp [h]

theorem lt_length_split_iff : i < (split count limit).length ↔ i * width limit < count := by
  constructor
  · intro h
    exact (getElem?_split_eq_some_iff.1 (List.getElem?_eq_getElem h)).1
  · intro h
    exact (List.getElem?_eq_some_iff.1 (getElem?_split_eq_some_iff.2 ⟨h, rfl⟩)).1

theorem length_split (count limit : ℕ) :
    (split count limit).length = count ⌈/⌉ width limit := by
  refine eq_of_forall_lt_iff fun i => ?_
  rw [lt_length_split_iff, ← not_le, ← not_le, ceilDiv_le_iff_le_mul (width_pos limit), mul_comm]

/-- A program of the batch is in piece `i / width`, and in no other. -/
theorem exists_piece_iff {k : ℕ} :
    (∃ p, (split count limit)[k]? = some p ∧ p.start ≤ i ∧ i < p.stop) ↔
      i < count ∧ k = i / width limit := by
  have hquotient : k = i / width limit ↔
      k * width limit ≤ i ∧ i < (k + 1) * width limit := by
    rw [eq_comm, Nat.div_eq_iff (width_pos limit), Nat.add_mul, Nat.one_mul]
    have := width_pos limit
    omega
  simp only [getElem?_split_eq_some_iff, and_assoc, exists_and_left, exists_eq_left, nth, lt_min_iff,
    hquotient]
  constructor
  · rintro ⟨-, hle, hlt, hcount⟩
    exact ⟨hcount, hle, hlt⟩
  · rintro ⟨hcount, hle, hlt⟩
    exact ⟨hle.trans_lt hcount, hle, hlt, hcount⟩

/-! ## Cuts -/

/-- The pieces cut a batch: they are numbered from zero, follow each other from the first program to
the last, and have the full width but for the last piece, which may be shorter. -/
structure Cuts (count width : ℕ) (pieces : List Piece) : Prop where
  chunk_eq : ∀ (i : ℕ) (p : Piece), pieces[i]? = some p → p.chunk = i
  first : ∀ p : Piece, pieces[0]? = some p → p.start = 0
  next : ∀ (i : ℕ) (p q : Piece), pieces[i]? = some p → pieces[i + 1]? = some q → q.start = p.stop
  last : ∀ p : Piece, pieces.getLast? = some p → p.stop = count ∧ p.stop ≤ p.start + width
  start_lt_stop : ∀ p ∈ pieces, p.start < p.stop
  full : ∀ (i : ℕ) (p : Piece), i + 1 < pieces.length → pieces[i]? = some p →
    p.stop = p.start + width
  exhausted : pieces = [] → count = 0

theorem cuts_split (count limit : ℕ) : Cuts count (width limit) (split count limit) where
  chunk_eq i p h := by
    obtain ⟨-, rfl⟩ := getElem?_split_eq_some_iff.1 h
    rfl
  first p h := by
    obtain ⟨-, rfl⟩ := getElem?_split_eq_some_iff.1 h
    exact Nat.zero_mul _
  next i p q hp hq := by
    obtain ⟨-, rfl⟩ := getElem?_split_eq_some_iff.1 hp
    obtain ⟨hlt, rfl⟩ := getElem?_split_eq_some_iff.1 hq
    exact (min_eq_left hlt.le).symm
  last p h := by
    rw [List.getLast?_eq_getElem?] at h
    obtain ⟨hlt, rfl⟩ := getElem?_split_eq_some_iff.1 h
    have hend : ¬(split count limit).length - 1 + 1 < (split count limit).length := by omega
    rw [lt_length_split_iff, not_lt] at hend
    simp only [nth, min_eq_right hend, true_and]
    rwa [Nat.add_mul, Nat.one_mul] at hend
  start_lt_stop p h := by
    obtain ⟨i, hi⟩ := List.mem_iff_getElem?.1 h
    obtain ⟨hlt, rfl⟩ := getElem?_split_eq_some_iff.1 hi
    exact lt_min (Nat.mul_lt_mul_of_pos_right i.lt_succ_self (width_pos limit)) hlt
  full i p hi h := by
    obtain ⟨-, rfl⟩ := getElem?_split_eq_some_iff.1 h
    rw [lt_length_split_iff] at hi
    rw [nth, min_eq_left hi.le, Nat.add_mul, Nat.one_mul]
  exhausted h := by
    have hnone : ¬0 < (split count limit).length := by simp [h]
    rw [lt_length_split_iff, Nat.zero_mul] at hnone
    omega

namespace Cuts

variable {w : ℕ} {pieces : List Piece}

theorem start_eq (h : Cuts count w pieces) (hp : pieces[i]? = some p) : p.start = i * w := by
  induction i generalizing p with
  | zero => rw [h.first p hp, Nat.zero_mul]
  | succ i ih =>
    have hi : i + 1 < pieces.length := (List.getElem?_eq_some_iff.1 hp).1
    have hprevious : pieces[i]? = some pieces[i] := List.getElem?_eq_getElem (Nat.lt_of_succ_lt hi)
    rw [h.next i _ p hprevious hp, h.full i _ hi hprevious, ih hprevious, Nat.add_mul, Nat.one_mul]

/-- The number of pieces is the least that reaches the end of the batch. -/
theorem lt_length_iff (h : Cuts count w pieces) : i < pieces.length ↔ i * w < count := by
  rcases hlast : pieces.getLast? with _ | p
  · have hnil := List.getLast?_eq_none_iff.1 hlast
    simp [hnil, h.exhausted hnil]
  · obtain ⟨hstop, hshort⟩ := h.last p hlast
    have hlt := h.start_lt_stop p (List.mem_of_getLast? hlast)
    rw [List.getLast?_eq_getElem?] at hlast
    have hpos := (List.getElem?_eq_some_iff.1 hlast).1
    rw [h.start_eq hlast] at hshort hlt
    constructor
    · intro hi
      calc i * w ≤ (pieces.length - 1) * w := Nat.mul_le_mul_right w (by omega)
        _ < count := hstop ▸ hlt
    · intro hi
      by_contra hge
      have hle : pieces.length * w ≤ i * w := Nat.mul_le_mul_right w (not_lt.1 hge)
      have hlength : pieces.length = pieces.length - 1 + 1 := by omega
      rw [hlength, Nat.add_mul, Nat.one_mul] at hle
      omega

/-- There is one way to cut a batch. -/
theorem eq_split (h : Cuts count (width limit) pieces) : pieces = split count limit := by
  refine List.ext_getElem? fun i => ?_
  rcases hp : pieces[i]? with _ | p
  · have hi : ¬i < pieces.length := not_lt.2 (List.getElem?_eq_none_iff.1 hp)
    rw [h.lt_length_iff, ← lt_length_split_iff, not_lt] at hi
    exact (List.getElem?_eq_none_iff.2 hi).symm
  · have hi : i < pieces.length := (List.getElem?_eq_some_iff.1 hp).1
    refine (getElem?_split_eq_some_iff.2 ⟨h.lt_length_iff.1 hi, ?_⟩).symm
    have hstart := h.start_eq hp
    have hstop : p.stop = min ((i + 1) * width limit) count := by
      obtain hnext | hend := lt_or_ge (i + 1) pieces.length
      · rw [h.full i p hnext hp, hstart, min_eq_left (h.lt_length_iff.1 hnext).le, Nat.add_mul,
          Nat.one_mul]
      · have hlast : pieces.getLast? = some p := by
          rw [List.getLast?_eq_getElem?, ← hp]
          congr 1
          omega
        have hcount : count ≤ (i + 1) * width limit := by
          rwa [← not_lt, h.lt_length_iff, not_lt] at hend
        rw [(h.last p hlast).1, min_eq_right hcount]
    have hchunk := h.chunk_eq i p hp
    cases p
    exact Piece.mk.injEq .. ▸ ⟨hchunk, hstart, hstop⟩

end Cuts

/-! ## Splitting in words -/

/-- The splitting where every sum is checked: the next start, up to which the piece goes unless the
batch ends before, and the next number. -/
def splitFromChecked (count limit chunk start : ℕ) : Option (List Piece) :=
  if start < count then
    match hsum : checkedAdd start (width limit) with
    | none => none
    | some next =>
      have : start < next := by
        obtain ⟨-, rfl⟩ : start + width limit < 2 ^ 64 ∧ start + width limit = next := by
          simpa [checkedAdd] using hsum
        exact Nat.lt_add_of_pos_right (width_pos limit)
      (checkedAdd chunk 1).bind fun number =>
        (splitFromChecked count limit number next).map (⟨chunk, start, min next count⟩ :: ·)
  else some []
termination_by count - start

/-- The pieces of a batch where every sum is checked. -/
def splitChecked (count limit : ℕ) : Option (List Piece) := splitFromChecked count limit 0 0

/-- Where the end of the last piece, had it the full width, is a word, no sum is too large for
one. -/
theorem splitFromChecked_eq {n : ℕ} (hcount : count ≤ start + n * width limit)
    (hstart : start + n * width limit < 2 ^ 64) (hchunk : chunk + n < 2 ^ 64) :
    splitFromChecked count limit chunk start = some (splitFrom count limit chunk start) := by
  induction n generalizing chunk start with
  | zero =>
    rw [Nat.zero_mul, Nat.add_zero] at hcount
    rw [splitFromChecked, if_neg (not_lt.2 hcount), splitFrom_of_le hcount]
  | succ n ih =>
    obtain h | h := lt_or_ge start count
    · rw [Nat.add_mul, Nat.one_mul, Nat.add_comm (n * width limit), ← Nat.add_assoc] at hcount hstart
      have hnext : checkedAdd start (width limit) = some (start + width limit) :=
        checkedAdd_eq (by omega)
      have hnumber : checkedAdd chunk 1 = some (chunk + 1) := checkedAdd_eq (by omega)
      rw [splitFromChecked, if_pos h, hnumber, splitFrom_of_lt h]
      split
      · next hsum => simp [hnext] at hsum
      · next next hsum =>
        obtain rfl := Option.some.inj (hnext.symm.trans hsum)
        rw [Option.bind_some, ih hcount hstart (by omega), Option.map_some]
    · rw [splitFromChecked, if_neg (not_lt.2 h), splitFrom_of_le h]

/-- A batch of less than half the words ends with a piece that could have the full width. -/
theorem ceilDiv_mul_width_lt (hcount : count < 2 ^ 63) (hlimit : limit < 2 ^ 64) :
    count ⌈/⌉ width limit * width limit < 2 ^ 64 := by
  have hwidth : width limit < 2 ^ 64 := max_lt hlimit (by norm_num)
  obtain h | h := le_or_gt count (width limit)
  · -- There is at most one piece, and the sum is the width.
    have hone : count ⌈/⌉ width limit ≤ 1 :=
      (ceilDiv_le_iff_le_mul (width_pos limit)).2 (by rwa [Nat.mul_one])
    calc count ⌈/⌉ width limit * width limit ≤ 1 * width limit := Nat.mul_le_mul_right _ hone
      _ < 2 ^ 64 := by rwa [Nat.one_mul]
  · -- The last piece ends less than a width after the batch, and the width is less than the count.
    calc count ⌈/⌉ width limit * width limit
        = (count + width limit - 1) / width limit * width limit := by
          rw [Nat.ceilDiv_eq_add_pred_div]
      _ ≤ count + width limit - 1 := Nat.div_mul_le_self _ _
      _ < 2 ^ 64 := by omega

theorem splitChecked_eq (hcount : count < 2 ^ 63) (hlimit : limit < 2 ^ 64) :
    splitChecked count limit = some (split count limit) := by
  have hsum := ceilDiv_mul_width_lt hcount hlimit
  have hle : count ⌈/⌉ width limit ≤ count ⌈/⌉ width limit * width limit :=
    Nat.le_mul_of_pos_right _ (width_pos limit)
  have hend : count ≤ count ⌈/⌉ width limit * width limit := by
    rw [Nat.mul_comm]
    exact le_smul_ceilDiv (width_pos limit)
  exact splitFromChecked_eq (n := count ⌈/⌉ width limit) (by omega) (by omega) (by omega)

/-! ## Splitting a batch -/

/-- A batch is cut into pieces of the width, the last of which may be shorter, and there is one way
to do so.  Program `i` is in piece `i / width` and in no other, and no sum on the way is too large
for a word. -/
theorem split_cuts_batch (count limit : ℕ) (hcount : count < 2 ^ 63) (hlimit : limit < 2 ^ 64) :
    Cuts count (max limit 1) (split count limit) ∧
    (∀ pieces, Cuts count (max limit 1) pieces → pieces = split count limit) ∧
    (split count limit).length = count ⌈/⌉ max limit 1 ∧
    (∀ i k, (∃ p, (split count limit)[k]? = some p ∧ p.start ≤ i ∧ i < p.stop) ↔
      i < count ∧ k = i / max limit 1) ∧
    splitChecked count limit = some (split count limit) :=
  ⟨cuts_split count limit, fun _ h => h.eq_split, length_split count limit,
    fun _ _ => exists_piece_iff, splitChecked_eq hcount hlimit⟩

/-- Pieces of nearly all of the longest batch: the second has a single program, and its end, had it
the full width, is nearly the largest word. -/
theorem split_longest_batch :
    (2 ^ 63 - 1 < 2 ^ 63 ∧ 2 ^ 63 - 2 < 2 ^ 64) ∧
    Cuts (2 ^ 63 - 1) (2 ^ 63 - 2) [⟨0, 0, 2 ^ 63 - 2⟩, ⟨1, 2 ^ 63 - 2, 2 ^ 63 - 1⟩] ∧
    (2 ^ 63 - 1) ⌈/⌉ (2 ^ 63 - 2) = 2 ∧
    splitChecked (2 ^ 63 - 1) (2 ^ 63 - 2) =
      some [⟨0, 0, 2 ^ 63 - 2⟩, ⟨1, 2 ^ 63 - 2, 2 ^ 63 - 1⟩] := by
  have hpieces : split (2 ^ 63 - 1) (2 ^ 63 - 2) =
      [⟨0, 0, 2 ^ 63 - 2⟩, ⟨1, 2 ^ 63 - 2, 2 ^ 63 - 1⟩] := by
    rw [split, splitFrom_of_lt (by norm_num), splitFrom_of_lt (by norm_num [width]),
      splitFrom_of_le (by norm_num [width])]
    norm_num [width]
  obtain ⟨hcuts, -, hlength, -, hchecked⟩ :=
    split_cuts_batch (2 ^ 63 - 1) (2 ^ 63 - 2) (by norm_num) (by norm_num)
  rw [hpieces] at hcuts hlength hchecked
  exact ⟨by norm_num, hcuts, hlength.symm, hchecked⟩

end CircuitCache.Piece
