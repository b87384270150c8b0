import Mathlib
import CircuitCache.Mapping

/-!
# What verification accepts

A mapping is usable against a sub-job when its entries are about exactly the instructions that
carry parameters, in their order, and repeat no operation (`Mapping.Covers`).  This is a property of
the shapes of the instructions, so it outlives every change of parameters.  `Mapping.verify` accepts
exactly the mappings that have it.
-/

namespace CircuitCache

/-- Whether the shape leaves room for parameters. -/
def Shape.isParameterized (s : Shape) : Bool := decide (s.arity ≠ 0)

theorem Instruction.isParameterized_shape (i : Instruction) :
    i.shape.isParameterized = i.isPatchable := by
  rw [Shape.isParameterized, Instruction.isPatchable, Instruction.shape]
  cases i.params <;> rfl

namespace SubJob

/-- The shapes of the instructions in order: all that patching leaves alone. -/
def shapes (s : SubJob) : List Shape := s.instructions.map Instruction.shape

/-- The positions of the instructions that carry parameters, in order. -/
def patchablePositions (s : SubJob) : List Nat := s.instructions.findIdxs Instruction.isPatchable

theorem length_patchablePositions (s : SubJob) : s.patchablePositions.length = s.patchableCount :=
  List.length_findIdxs

theorem mem_patchablePositions {s : SubJob} {i : Nat} :
    i ∈ s.patchablePositions ↔ s.instructions[i]?.any Instruction.isPatchable := by
  rw [patchablePositions, List.mem_findIdxs_iff_exists_getElem_pos, Option.any_eq_true]
  constructor
  · rintro ⟨hi, h⟩
    exact ⟨_, List.getElem?_eq_getElem hi, h⟩
  · rintro ⟨x, hx, h⟩
    obtain ⟨hi, rfl⟩ := List.getElem?_eq_some_iff.1 hx
    exact ⟨hi, h⟩

theorem pairwise_patchablePositions (s : SubJob) : s.patchablePositions.Pairwise (· < ·) :=
  List.pairwise_findIdxs

theorem patchablePositions_eq (s : SubJob) :
    s.patchablePositions = s.shapes.findIdxs Shape.isParameterized := by
  rw [shapes, List.findIdxs_map, patchablePositions]
  exact congrArg (List.findIdxs · s.instructions) (funext fun i => i.isParameterized_shape.symm)

end SubJob

namespace Mapping

/-- The entries are about the shapes with room for parameters, each once and in order, and no
operation feeds two of them. -/
def Covers (m : Mapping) (target : List Shape) : Prop :=
  m.entries.map Entry.instruction = target.findIdxs Shape.isParameterized ∧ m.sources.Nodup

/-- Against a sub-job, the entries are about the instructions that carry parameters. -/
theorem covers_shapes_iff {m : Mapping} {s : SubJob} : m.Covers s.shapes ↔
    m.entries.map Entry.instruction = s.patchablePositions ∧ m.sources.Nodup := by
  rw [Covers, s.patchablePositions_eq]

/-! ## Faults -/

theorem followsPatchable_iff {sub : SubJob} {previous : Option Nat} {e : Entry} :
    followsPatchable sub previous e = true ↔
      (∀ i ∈ previous, i < e.instruction) ∧ e.instruction ∈ sub.patchablePositions := by
  rw [followsPatchable, Bool.and_eq_true, ← SubJob.mem_patchablePositions, Option.all_eq_true]
  simp

/-- No entry is at fault when the instructions are patchable and increase and the operations are
new and distinct. -/
theorem fault?_eq_none_iff {sub : SubJob} {previous : Option Nat} {seen : List Nat}
    {entries : List Entry} :
    fault? sub previous seen entries = none ↔
      (∀ e ∈ entries, followsPatchable sub previous e) ∧
      (entries.map Entry.instruction).Pairwise (· < ·) ∧
      (∀ e ∈ entries, e.operation ∉ seen) ∧ (entries.map Entry.operation).Nodup := by
  -- The check only compares with the entry before, so increasing instructions come from
  -- transitivity along the entries.
  induction entries generalizing previous seen with
  | nil => simp [fault?]
  | cons e rest ih =>
    rw [fault?]
    by_cases hfollows : followsPatchable sub previous e = true
    · by_cases hseen : e.operation ∈ seen
      · simp [hfollows, hseen]
      · rw [if_neg (by simp [hfollows]), if_neg hseen, ih, List.map_cons, List.pairwise_cons,
          List.map_cons, List.nodup_cons]
        obtain ⟨hprevious, -⟩ := followsPatchable_iff.1 hfollows
        simp only [List.forall_mem_cons, List.forall_mem_map, followsPatchable_iff, Option.mem_def,
          Option.some.injEq, forall_eq']
        simp only [List.mem_cons]
        constructor
        · rintro ⟨hrest, hsorted, hnew, hnodup⟩
          refine ⟨⟨followsPatchable_iff.1 hfollows, fun x hx => ⟨fun i hi => ?_, (hrest x hx).2⟩⟩,
            ⟨fun x hx => (hrest x hx).1, hsorted⟩, ⟨hseen, fun x hx hs => hnew x hx (.inr hs)⟩,
            fun hmem => ?_, hnodup⟩
          · exact (hprevious i hi).trans (hrest x hx).1
          · obtain ⟨x, hx, hop⟩ := List.mem_map.1 hmem
            exact hnew x hx (.inl hop)
        · rintro ⟨⟨-, hrest⟩, ⟨hlt, hsorted⟩, ⟨-, hnew⟩, hop, hnodup⟩
          refine ⟨fun x hx => ⟨hlt x hx, (hrest x hx).2⟩, hsorted, fun x hx => ?_, hnodup⟩
          rintro (h | h)
          · exact hop (List.mem_map.2 ⟨x, hx, h⟩)
          · exact hnew x hx h
    · simp [hfollows]

/-- Verification accepts the mappings that cover their sub-job, and no others. -/
theorem verify_eq_ok_iff {slot : Nat} {m : Mapping} {sub : SubJob} :
    m.verify slot sub = .ok () ↔ m.Covers sub.shapes := by
  have hverify : m.verify slot sub = .ok () ↔
      fault? sub none [] m.entries = none ∧ sub.patchableCount = m.entries.length := by
    unfold verify
    split
    · next reason h => simp [h]
    · next h => by_cases hlen : sub.patchableCount = m.entries.length <;> simp [h, hlen]
  have hfault : fault? sub none [] m.entries = none ↔
      (∀ i ∈ m.entries.map Entry.instruction, i ∈ sub.patchablePositions) ∧
        (m.entries.map Entry.instruction).Pairwise (· < ·) ∧ m.sources.Nodup := by
    rw [fault?_eq_none_iff]
    simp [followsPatchable_iff, sources]
  rw [hverify, hfault, covers_shapes_iff, ← sub.length_patchablePositions,
    ← List.length_map Entry.instruction]
  constructor
  · rintro ⟨⟨hmem, hsorted, hnodup⟩, hlen⟩
    have hperm := (List.subperm_of_subset (hsorted.imp fun h => h.ne) hmem).perm_of_length_le hlen.le
    exact ⟨hperm.eq_of_pairwise (fun a b _ _ hab hba => absurd hab hba.asymm) hsorted
      sub.pairwise_patchablePositions, hnodup⟩
  · rintro ⟨hpositions, hnodup⟩
    rw [hpositions]
    exact ⟨⟨fun i hi => hi, sub.pairwise_patchablePositions, hnodup⟩, rfl⟩

end Mapping

end CircuitCache
