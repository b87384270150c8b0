import Mathlib
import CircuitCache.Proofs.Diagnosis

/-!
# Why a mapping is rejected

An entry is at fault if its instruction does not come after that of the entry before or carries no
parameters (`Mapping.Strays`), or if an earlier entry has its operation (`Mapping.Repeats`).
Verification tells of the first entry at fault, and compares numbers only when there is none
(`Mapping.Rejects`).  What passes both is the list of all instructions with parameters.
-/

namespace CircuitCache

namespace Mapping

/-- Entry `k` has an instruction that does not come after that of the entry before, or that is not
there or has no parameters. -/
def Strays (m : Mapping) (sub : SubJob) (k : ℕ) (e : Entry) : Prop :=
  m.entries[k]? = some e ∧
    ((∃ j d, j + 1 = k ∧ m.entries[j]? = some d ∧ e.instruction ≤ d.instruction) ∨
      ∀ i, sub.instructions[e.instruction]? = some i → i.params = [])

/-- Entry `k` has the operation of an earlier entry. -/
def Repeats (m : Mapping) (k : ℕ) (e : Entry) : Prop :=
  m.entries[k]? = some e ∧ ∃ j < k, ∃ d, m.entries[j]? = some d ∧ d.operation = e.operation

/-- Entry `k` is at fault, in its instruction or in its operation. -/
def IsFaulty (m : Mapping) (sub : SubJob) (k : ℕ) : Prop :=
  ∃ e, m.Strays sub k e ∨ m.Repeats k e

/-- Why the mapping is not usable: the first entry at fault, of which the instruction counts first, or
the numbers where no entry is at fault. -/
inductive Rejects (m : Mapping) (sub : SubJob) : Mismatch → Prop
  | stray {k : ℕ} {e : Entry} (h : m.Strays sub k e) (hfirst : ∀ j < k, ¬m.IsFaulty sub j) :
    Rejects m sub (.instructionOutOfRange e.instruction sub.instructions.length)
  | repeated {k : ℕ} {e : Entry} (h : m.Repeats k e) (hstray : ¬m.Strays sub k e)
    (hfirst : ∀ j < k, ¬m.IsFaulty sub j) :
    Rejects m sub (.duplicateOperation e.operation)
  | length (hgood : ∀ k, ¬m.IsFaulty sub k) (h : m.entries.length ≠ sub.patchableCount) :
    Rejects m sub (.mappingLength m.entries.length sub.patchableCount)

variable {m : Mapping} {sub : SubJob}

/-! ## One reason -/

theorem IsFaulty.lt_length {k : ℕ} (h : m.IsFaulty sub k) : k < m.entries.length := by
  obtain ⟨e, ⟨he, -⟩ | ⟨he, -⟩⟩ := h
  · exact (List.getElem?_eq_some_iff.1 he).1
  · exact (List.getElem?_eq_some_iff.1 he).1

theorem Rejects.unique {r r' : Mismatch} (h : m.Rejects sub r) (h' : m.Rejects sub r') :
    r = r' := by
  cases h with
  | stray h hfirst =>
    cases h' with
    | stray h' hfirst' =>
      obtain rfl := eq_of_first ⟨_, .inl h⟩ ⟨_, .inl h'⟩ hfirst hfirst'
      rw [Option.some.inj (h.1.symm.trans h'.1)]
    | repeated h' hstray' hfirst' =>
      obtain rfl := eq_of_first ⟨_, .inl h⟩ ⟨_, .inr h'⟩ hfirst hfirst'
      obtain rfl := Option.some.inj (h.1.symm.trans h'.1)
      exact absurd h hstray'
    | length hgood' => exact absurd ⟨_, .inl h⟩ (hgood' _)
  | repeated h hstray hfirst =>
    cases h' with
    | stray h' hfirst' =>
      obtain rfl := eq_of_first ⟨_, .inr h⟩ ⟨_, .inl h'⟩ hfirst hfirst'
      obtain rfl := Option.some.inj (h.1.symm.trans h'.1)
      exact absurd h' hstray
    | repeated h' _ hfirst' =>
      obtain rfl := eq_of_first ⟨_, .inr h⟩ ⟨_, .inr h'⟩ hfirst hfirst'
      rw [Option.some.inj (h.1.symm.trans h'.1)]
    | length hgood' => exact absurd ⟨_, .inr h⟩ (hgood' _)
  | length hgood =>
    cases h' with
    | stray h' => exact absurd ⟨_, .inl h'⟩ (hgood _)
    | repeated h' => exact absurd ⟨_, .inr h'⟩ (hgood _)
    | length => rfl

/-! ## The check -/

/-- What the check knows after `count` entries: the instruction of the last one and the operations of
all of them. -/
structure Reached (m : Mapping) (count : ℕ) (previous : Option ℕ) (seen : List ℕ)
    (rest : List Entry) : Prop where
  rest : m.entries.drop count = rest
  previous : ∀ i, i ∈ previous ↔ ∃ j d, j + 1 = count ∧ m.entries[j]? = some d ∧ d.instruction = i
  seen : ∀ b, b ∈ seen ↔ ∃ j < count, ∃ d, m.entries[j]? = some d ∧ d.operation = b

namespace Reached

variable {count : ℕ} {previous : Option ℕ} {seen : List ℕ} {e : Entry} {rest : List Entry}

theorem zero (m : Mapping) : m.Reached 0 none [] m.entries :=
  ⟨List.drop_zero, by simp, by simp⟩

theorem getElem? (h : m.Reached count previous seen (e :: rest)) :
    m.entries[count]? = some e := by
  rw [← List.head?_drop, h.rest, List.head?_cons]

theorem succ (h : m.Reached count previous seen (e :: rest)) :
    m.Reached (count + 1) (some e.instruction) (e.operation :: seen) rest where
  rest := by rw [← List.drop_drop, h.rest, List.drop_one, List.tail_cons]
  previous i := by simp [h.getElem?]
  seen b := by
    rw [List.mem_cons, h.seen]
    constructor
    · rintro (rfl | ⟨j, hj, d, hd⟩)
      · exact ⟨count, count.lt_succ_self, e, h.getElem?, rfl⟩
      · exact ⟨j, Nat.lt_succ_of_lt hj, d, hd⟩
    · rintro ⟨j, hj, d, hd, rfl⟩
      rcases Nat.lt_succ_iff_lt_or_eq.1 hj with hj | rfl
      · exact .inr ⟨j, hj, d, hd, rfl⟩
      · rw [Option.some.inj (hd.symm.trans h.getElem?)]
        exact .inl rfl

/-- The entry strays when it does not follow the last one as the check has it. -/
theorem strays_iff (h : m.Reached count previous seen (e :: rest)) :
    m.Strays sub count e ↔ ¬followsPatchable sub previous e = true := by
  rw [Strays, and_iff_right h.getElem?, followsPatchable_iff, not_and_or, SubJob.mem_patchablePositions]
  refine or_congr ?_ ?_
  · simp only [h.previous]
    push Not
    constructor
    · rintro ⟨j, d, hj, hd, hle⟩
      exact ⟨_, ⟨j, d, hj, hd, rfl⟩, hle⟩
    · rintro ⟨_, ⟨j, d, hj, hd, rfl⟩, hle⟩
      exact ⟨j, d, hj, hd, hle⟩
  · rcases sub.instructions[e.instruction]? with _ | i
    · simp
    · simp [Instruction.isPatchable]

theorem repeats_iff (h : m.Reached count previous seen (e :: rest)) :
    m.Repeats count e ↔ e.operation ∈ seen := by
  rw [Repeats, and_iff_right h.getElem?, h.seen]

theorem isFaulty_iff (h : m.Reached count previous seen (e :: rest)) :
    m.IsFaulty sub count ↔ m.Strays sub count e ∨ m.Repeats count e := by
  constructor
  · rintro ⟨d, hd⟩
    have hde : d = e := by
      rcases hd with ⟨hd, -⟩ | ⟨hd, -⟩ <;> exact Option.some.inj (hd.symm.trans h.getElem?)
    exact hde ▸ hd
  · exact fun h => ⟨e, h⟩

end Reached

/-- When no entry before is at fault, the check of the others finds the first one that is. -/
theorem fault?_cases {count : ℕ} {previous : Option ℕ} {seen : List ℕ} {rest : List Entry}
    (h : m.Reached count previous seen rest) (hgood : ∀ j < count, ¬m.IsFaulty sub j) :
    (∃ r, fault? sub previous seen rest = some r ∧ m.Rejects sub r) ∨
      fault? sub previous seen rest = none ∧ ∀ k, ¬m.IsFaulty sub k := by
  induction rest generalizing count previous seen with
  | nil =>
    refine .inr ⟨rfl, fun k hk => hgood k (hk.lt_length.trans_le ?_) hk⟩
    exact List.drop_eq_nil_iff.1 h.rest
  | cons e rest ih =>
    rw [fault?]
    by_cases hfollows : followsPatchable sub previous e = true
    · have hstray : ¬m.Strays sub count e := fun hs => h.strays_iff.1 hs hfollows
      rw [if_neg (by simp [hfollows])]
      by_cases hseen : e.operation ∈ seen
      · rw [if_pos hseen]
        exact .inl ⟨_, rfl, .repeated (h.repeats_iff.2 hseen) hstray hgood⟩
      · rw [if_neg hseen]
        refine ih h.succ fun j hj => ?_
        rcases Nat.lt_succ_iff_lt_or_eq.1 hj with hj | rfl
        · exact hgood j hj
        · rw [h.isFaulty_iff, h.repeats_iff]
          exact not_or.2 ⟨hstray, hseen⟩
    · rw [if_pos (by simpa using hfollows)]
      exact .inl ⟨_, rfl, .stray (h.strays_iff.2 hfollows) hgood⟩

/-- Verification gives the reason for rejecting a mapping, or there is none. -/
theorem verify_cases (slot : ℕ) (m : Mapping) (sub : SubJob) :
    (∃ r, m.verify slot sub = .error (.structuralMismatch slot r) ∧ m.Rejects sub r) ∨
      m.verify slot sub = .ok () ∧ ∀ r, ¬m.Rejects sub r := by
  rw [verify]
  rcases fault?_cases (.zero m) (fun j hj => absurd hj j.not_lt_zero) with
    ⟨r, hr, hrejects⟩ | ⟨hnone, hgood⟩
  · rw [hr]
    exact .inl ⟨r, rfl, hrejects⟩
  · rw [hnone]
    by_cases hlength : m.entries.length = sub.patchableCount
    · refine .inr ⟨if_neg (not_not.2 hlength.symm), fun r hr => ?_⟩
      cases hr with
      | stray h => exact hgood _ ⟨_, .inl h⟩
      | repeated h => exact hgood _ ⟨_, .inr h⟩
      | length _ h => exact h hlength
    · exact .inl ⟨_, if_pos (Ne.symm hlength), .length hgood hlength⟩

/-- Verification accepts exactly the mappings whose entries have the instructions with parameters in
order, all of them, and distinct operations.  It rejects the others for the first entry at fault, for
its instruction before its operation, and for the numbers exactly when they differ and no entry is
at fault. -/
theorem verify_accepts_or_rejects (slot : ℕ) (m : Mapping) (sub : SubJob) :
    (m.verify slot sub = .ok () ↔ m.entries.map Entry.instruction = sub.patchablePositions ∧
      (m.entries.map Entry.operation).Nodup) ∧
    (∀ e, m.verify slot sub = .error e ↔
      ∃ r, e = .structuralMismatch slot r ∧ m.Rejects sub r) ∧
    ((∃ mapped patchable, m.verify slot sub =
        .error (.structuralMismatch slot (.mappingLength mapped patchable))) ↔
      (∀ k, ¬m.IsFaulty sub k) ∧ m.entries.length ≠ sub.patchableCount) := by
  have herror (e : CacheError) : m.verify slot sub = .error e ↔
      ∃ r, e = .structuralMismatch slot r ∧ m.Rejects sub r := by
    rcases m.verify_cases slot sub with ⟨r, hr, hrejects⟩ | ⟨hok, hnone⟩
    · rw [hr, Except.error.injEq]
      constructor
      · rintro rfl
        exact ⟨r, rfl, hrejects⟩
      · rintro ⟨r', rfl, hrejects'⟩
        rw [hrejects.unique hrejects']
    · rw [hok]
      simp [hnone]
  refine ⟨verify_eq_ok_iff.trans covers_shapes_iff, herror, ?_⟩
  simp only [herror, CacheError.structuralMismatch.injEq, true_and, exists_eq_left']
  constructor
  · rintro ⟨mapped, patchable, h⟩
    cases h with
    | length hgood h => exact ⟨hgood, h⟩
  · rintro ⟨hgood, h⟩
    exact ⟨_, _, .length hgood h⟩

end Mapping

namespace Example

/-- Two rotations with a gate between them. -/
def twoRotations : SubJob :=
  ⟨"turns", [⟨.rz, [0], [.zero]⟩, ⟨.x, [0], []⟩, ⟨.rz, [0], [.zero]⟩], none⟩

/-- Operations may come in any order.  The entry about the gate is rejected for its instruction,
though it repeats an operation as well. -/
theorem verify_twoRotations :
    Mapping.verify 0 ⟨[⟨0, 1⟩, ⟨2, 0⟩]⟩ twoRotations = .ok () ∧
    Mapping.Rejects ⟨[⟨0, 0⟩, ⟨1, 0⟩]⟩ twoRotations (.instructionOutOfRange 1 3) ∧
    Mapping.Rejects ⟨[⟨0, 0⟩, ⟨2, 0⟩]⟩ twoRotations (.duplicateOperation 0) ∧
    Mapping.Rejects ⟨[⟨0, 0⟩]⟩ twoRotations (.mappingLength 1 2) := by
  have hrejects {m : Mapping} {r : Mismatch}
      (h : m.verify 0 twoRotations = .error (.structuralMismatch 0 r)) :
      m.Rejects twoRotations r := by
    obtain ⟨r', heq, hr'⟩ := ((Mapping.verify_accepts_or_rejects 0 m twoRotations).2.1 _).1 h
    cases heq
    exact hr'
  exact ⟨(Mapping.verify_accepts_or_rejects 0 _ twoRotations).1.2 (by decide),
    hrejects (by decide), hrejects (by decide), hrejects (by decide)⟩

end Example

end CircuitCache
