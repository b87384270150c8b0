import Mathlib
import CircuitCache.Proofs.Edits

/-!
# The name to suggest

The finished row holds the distances from the left text so far to every beginning of the right text
(`Rows.Holds`).  Overwriting the other row from the left keeps this for one more character, whatever
old entries are still on the right, so the last entry in the end is the edit distance.  The name
suggested is the first of the nearest candidates, if it is near enough; distances are between names
with their ASCII letters in lower case (`distance`).
-/

namespace CircuitCache.Text

/-! ## Rows -/

namespace Rows

variable {right : List Char}

/-- The finished row is that of the left text so far. -/
def Holds (rows : Rows right) (left : List Char) : Prop :=
  ∀ k (_ : k ≤ right.length), rows.previous[k] = editDistance left (right.take k)

theorem holds_start (right : List Char) : (start right).Holds [] := by
  intro k hk
  rw [editDistance_nil_left, List.length_take, min_eq_left hk]
  exact Vector.getElem_range _

/-- Every entry up to the last one overwritten is the distance from one character more. -/
theorem Holds.getElem_overwrite {rows : Rows right} {left : List Char} (h : rows.Holds left)
    (c : Char) (j : ℕ) (hj : j ≤ right.length) (k : ℕ) (hk : k ≤ j) :
    (rows.overwrite c left.length j hj)[k] = editDistance (left ++ [c]) (right.take k) := by
  induction j generalizing k with
  | zero =>
    obtain rfl := Nat.le_zero.1 hk
    simp [overwrite, editDistance_nil_right]
  | succ j ih =>
    rw [overwrite]
    obtain rfl | hold : k = j + 1 ∨ k ≤ j := by omega
    · have htake : right.take (j + 1) = right.take j ++ [right[j]] :=
        (List.take_append_getElem (by omega)).symm
      rw [Vector.getElem_set_self, h j (by omega), h (j + 1) hj, ih (by omega) j le_rfl, htake,
        editDistance_concat, min_assoc]
    · rw [Vector.getElem_set_ne _ _ (by omega), ih (by omega) k hold]

theorem Holds.advance {rows : Rows right} {left : List Char} (h : rows.Holds left) (c : Char) :
    (rows.advance (c, left.length)).Holds (left ++ [c]) :=
  fun k hk => h.getElem_overwrite c right.length le_rfl k hk

theorem holds_foldl_advance (left right : List Char) :
    (left.zipIdx.foldl advance (start right)).Holds left := by
  induction left using List.reverseRecOn with
  | nil => exact holds_start right
  | append_singleton left c ih =>
    rw [List.zipIdx_append, List.foldl_append]
    simpa using ih.advance c

end Rows

theorem rowDistance_eq_editDistance (left right : List Char) :
    rowDistance left right = editDistance left right := by
  rw [rowDistance, Rows.holds_foldl_advance left right right.length le_rfl, List.take_length]

/-! ## The nearest candidate -/

/-- The edit distance between two names with their ASCII letters in lower case. -/
def distance (target candidate : String) : ℕ :=
  editDistance (target.toList.map Char.toLower) (candidate.toList.map Char.toLower)

theorem editDistance_folded (target candidate : String) :
    editDistance (folded target) (folded candidate) = distance target candidate := rfl

/-- No candidate is nearer to the target, and none before this one is as near. -/
def IsFirstNearest (target : String) (candidates : List String) (candidate : String) : Prop :=
  ∃ before after, candidates = before ++ candidate :: after ∧
    (∀ other ∈ before, distance target candidate < distance target other) ∧
    ∀ other ∈ after, distance target candidate ≤ distance target other

variable {target candidate other : String} {candidates : List String}

theorem IsFirstNearest.distance_le (h : IsFirstNearest target candidates candidate)
    (hother : other ∈ candidates) : distance target candidate ≤ distance target other := by
  obtain ⟨before, after, rfl, hbefore, hafter⟩ := h
  obtain hother | hother := List.mem_append.1 hother
  · exact (hbefore other hother).le
  · obtain rfl | hother := List.mem_cons.1 hother
    · exact le_rfl
    · exact hafter other hother

theorem IsFirstNearest.mem (h : IsFirstNearest target candidates candidate) :
    candidate ∈ candidates := by
  obtain ⟨before, after, rfl, -⟩ := h
  exact List.mem_append_right before List.mem_cons_self

/-- The first of the nearest is the first candidate, or the first of the nearest of the others. -/
theorem isFirstNearest_cons_iff {first : String} :
    IsFirstNearest target (first :: candidates) candidate ↔
      (candidate = first ∧ ∀ other ∈ candidates, distance target first ≤ distance target other) ∨
      (distance target candidate < distance target first ∧
        IsFirstNearest target candidates candidate) := by
  constructor
  · rintro ⟨before, after, hsplit, hbefore, hafter⟩
    cases before with
    | nil =>
      obtain ⟨rfl, rfl⟩ := List.cons.inj hsplit
      exact .inl ⟨rfl, hafter⟩
    | cons c before =>
      obtain ⟨rfl, rfl⟩ := List.cons.inj hsplit
      exact .inr ⟨hbefore first List.mem_cons_self, before, after, rfl,
        fun other hother => hbefore other (List.mem_cons_of_mem first hother), hafter⟩
  · rintro (⟨rfl, hothers⟩ | ⟨hlt, before, after, rfl, hbefore, hafter⟩)
    · exact ⟨[], candidates, rfl, by simp, hothers⟩
    · exact ⟨first :: before, after, rfl, List.forall_mem_cons.2 ⟨hlt, hbefore⟩, hafter⟩

theorem closest_eq_none_iff {text : List Char} :
    closest text candidates = none ↔ candidates = [] := by
  cases candidates with
  | nil => simp [closest]
  | cons first candidates =>
    rw [closest]
    cases closest text candidates with
    | none => simp
    | some nearest =>
      dsimp only
      split_ifs <;> simp

theorem closest_eq_some_iff {d : ℕ} : closest (folded target) candidates = some (candidate, d) ↔
    IsFirstNearest target candidates candidate ∧ distance target candidate = d := by
  induction candidates generalizing candidate d with
  | nil => simp [closest, IsFirstNearest]
  | cons first candidates ih =>
    rw [isFirstNearest_cons_iff, closest, rowDistance_eq_editDistance,
      editDistance_folded]
    rcases hrest : closest (folded target) candidates with _ | ⟨second, e⟩
    · obtain rfl := closest_eq_none_iff.1 hrest
      simp only [Option.some.injEq, Prod.mk.injEq, IsFirstNearest, List.nil_eq_append_iff]
      grind
    · obtain ⟨hsecond, rfl⟩ := ih.1 hrest
      have hunique : IsFirstNearest target candidates candidate ↔ candidate = second := by
        constructor
        · intro h
          have hsame := hrest.symm.trans (ih.2 ⟨h, rfl⟩)
          simp_all
        · rintro rfl
          exact hsecond
      have hall : (∀ other ∈ candidates, distance target first ≤ distance target other) ↔
          distance target first ≤ distance target second :=
        ⟨fun h => h second hsecond.mem, fun h other hother => h.trans (hsecond.distance_le hother)⟩
      rw [hunique, hall]
      dsimp only
      split_ifs with hle
      · simp only [Option.some.injEq, Prod.mk.injEq]
        grind
      · simp only [Option.some.injEq, Prod.mk.injEq]
        grind

theorem exists_isFirstNearest (target : String) (h : candidates ≠ []) :
    ∃ candidate, IsFirstNearest target candidates candidate := by
  have hne : closest (folded target) candidates ≠ none := mt closest_eq_none_iff.1 h
  obtain ⟨⟨candidate, d⟩, hclosest⟩ := Option.ne_none_iff_exists'.1 hne
  exact ⟨candidate, (closest_eq_some_iff.1 hclosest).1⟩

theorem IsFirstNearest.nearest? (h : IsFirstNearest target candidates candidate) :
    nearest? target candidates =
      if distance target candidate ≤ slips target then some candidate else none := by
  rw [Text.nearest?, closest_eq_some_iff.2 ⟨h, rfl⟩]

/-- The first of the nearest candidates is suggested if it is near enough, and nothing otherwise: a
target of fewer than three characters allows one edit, any other two.  The distance that the rows
find is the recursive one, which is the least number of edits. -/
theorem suggestion_is_first_nearest (target : String) (candidates : List String) :
    let threshold := if target.length < 3 then 1 else 2
    (nearest? target candidates = none ↔
      ∀ candidate ∈ candidates, threshold < distance target candidate) ∧
    (∀ candidate, nearest? target candidates = some candidate ↔
      distance target candidate ≤ threshold ∧ IsFirstNearest target candidates candidate) ∧
    ∀ left right, rowDistance left right = editDistance left right ∧
      IsLeast {n | EditsIn n left right} (editDistance left right) := by
  intro threshold
  have hslips : slips target = threshold := rfl
  refine ⟨?_, ?_, fun left right =>
    ⟨rowDistance_eq_editDistance left right, isLeast_editDistance left right⟩⟩
  · by_cases hnil : candidates = []
    · subst hnil
      simp [nearest?, closest]
    · obtain ⟨nearest, hnearest⟩ := exists_isFirstNearest target hnil
      rw [hnearest.nearest?, hslips]
      constructor
      · intro h candidate hcandidate
        have hfar : threshold < distance target nearest := by simpa using h
        exact hfar.trans_le (hnearest.distance_le hcandidate)
      · intro h
        exact if_neg (not_le.2 (h nearest hnearest.mem))
  · intro candidate
    constructor
    · intro h
      have hnil : candidates ≠ [] := by
        rintro rfl
        simp [nearest?, closest] at h
      obtain ⟨nearest, hnearest⟩ := exists_isFirstNearest target hnil
      rw [hnearest.nearest?, hslips] at h
      split_ifs at h with hnear
      obtain rfl := Option.some.inj h
      exact ⟨hnear, hnearest⟩
    · rintro ⟨hnear, hcandidate⟩
      rw [hcandidate.nearest?, hslips, if_pos hnear]

end CircuitCache.Text
