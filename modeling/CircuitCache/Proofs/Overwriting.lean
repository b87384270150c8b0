import Mathlib
import CircuitCache.Proofs.Patching

/-!
# What a patch overwrites

Where a mapping covers a sub-job and fits a program, a patch overwrites every parameter: each
instruction of the result carries out an operation of the program or has no parameters. So nothing
depends on the parameters and the name that stood there before (`Mapping.write_congr`). Whether
every operation with parameters is used at all is not checked; it is a matter of counting
(`Mapping.forall_feedsOnce_iff`).
-/

namespace CircuitCache

/-- Lists that look alike have items that look alike at each position, or none. -/
theorem getElem?_cases_of_map_eq {α β : Type} {f : α → β} {xs ys : List α}
    (h : xs.map f = ys.map f) (i : ℕ) : xs[i]? = none ∧ ys[i]? = none ∨
      ∃ x y, xs[i]? = some x ∧ ys[i]? = some y ∧ f x = f y := by
  have hi := congrArg (·[i]?) h
  simp only [List.getElem?_map] at hi
  rcases hx : xs[i]? with _ | x
  · rw [hx, Option.map_none, eq_comm, Option.map_eq_none_iff] at hi
    exact .inl ⟨rfl, hi⟩
  · rw [hx, Option.map_some, eq_comm, Option.map_eq_some_iff] at hi
    obtain ⟨y, hy, hxy⟩ := hi
    exact .inr ⟨x, y, rfl, hy, hxy.symm⟩

theorem Instruction.params_eq_nil {i : Instruction} (h : i.isPatchable = false) :
    i.params = [] := by
  simpa [isPatchable] using h

/-- Shapes tell instructions without parameters apart. -/
theorem Instruction.eq_of_shape_eq {i j : Instruction} (hshape : i.shape = j.shape)
    (hi : i.isPatchable = false) : i = j := by
  have hj : j.isPatchable = false := by
    rw [← j.isParameterized_shape, ← hshape, i.isParameterized_shape, hi]
  have hsignature : i.signature = j.signature := congrArg Shape.signature hshape
  have htag : i.tag = j.tag := congrArg Signature.tag hsignature
  have hoperands : i.operands = j.operands := congrArg Signature.operands hsignature
  have hparams : i.params = j.params := by rw [params_eq_nil hi, params_eq_nil hj]
  obtain ⟨tag, operands, params⟩ := i
  obtain rfl := htag
  obtain rfl := hoperands
  obtain rfl := hparams
  rfl

/-- The sub-job has the name of the program, and whatever carries parameters in it carries out an
operation of the program. -/
def SubJob.Carries (s : SubJob) (p : Program) : Prop :=
  s.name = p.name ∧ ∀ i ∈ s.instructions, i.params = [] ∨ ∃ op ∈ p.unrolled, i = op.compiled

namespace Mapping

variable {m : Mapping} {s : SubJob} {p : Program}

theorem Covers.nodup_instructions (h : m.Covers s.shapes) :
    (m.entries.map Entry.instruction).Nodup := by
  rw [(covers_shapes_iff.1 h).1]
  exact s.pairwise_patchablePositions.imp fun h => h.ne

/-- An instruction that no entry is about has no parameters. -/
theorem Covers.isPatchable_eq_false (h : m.Covers s.shapes) {j : ℕ}
    (hj : j ∉ m.entries.map Entry.instruction) {i : Instruction}
    (hi : s.instructions[j]? = some i) : i.isPatchable = false := by
  rw [(covers_shapes_iff.1 h).1, SubJob.mem_patchablePositions, hi, Option.any_some,
    Bool.not_eq_true] at hj
  exact hj

/-- Every entry is about an instruction that is there and has parameters. -/
theorem Covers.exists_instruction (h : m.Covers s.shapes) {e : Entry} (he : e ∈ m.entries) :
    ∃ i, s.instructions[e.instruction]? = some i ∧ i.isPatchable = true := by
  have hposition : e.instruction ∈ s.patchablePositions := by
    rw [← (covers_shapes_iff.1 h).1]
    exact List.mem_map_of_mem he
  rw [SubJob.mem_patchablePositions, Option.any_eq_true] at hposition
  exact hposition

/-- An entry leads from an operation with parameters to an instruction with the same. -/
theorem exists_of_mem (hcovers : m.Covers s.shapes) (hfits : m.Fits s.shapes p.shapes) {e : Entry}
    (he : e ∈ m.entries) : ∃ i op, s.instructions[e.instruction]? = some i ∧
      p.unrolled[e.operation]? = some op ∧ i.shape = op.shape ∧ op.isParameterized = true := by
  obtain ⟨i, hi, hpatchable⟩ := hcovers.exists_instruction he
  obtain ⟨x, hx, hop⟩ := hfits e he
  rw [SubJob.shapes, List.getElem?_map, hi, Option.map_some, Option.some_inj] at hx
  rw [Program.shapes, List.getElem?_map, Option.map_eq_some_iff, ← hx] at hop
  obtain ⟨op, hop, hshape⟩ := hop
  refine ⟨i, op, hi, hop, hshape.symm, ?_⟩
  rw [← op.isParameterized_shape, hshape, i.isParameterized_shape, hpatchable]

/-- In the patched sub-job an entry's instruction carries out its operation. -/
theorem getElem?_write_of_mem (hcovers : m.Covers s.shapes) (hfits : m.Fits s.shapes p.shapes)
    {e : Entry} (he : e ∈ m.entries) {op : Operation} (hop : p.unrolled[e.operation]? = some op) :
    (m.write s p).instructions[e.instruction]? = some op.compiled := by
  obtain ⟨i, op', hi, hop', hshape, -⟩ := exists_of_mem hcovers hfits he
  obtain rfl := Option.some.inj (hop.symm.trans hop')
  rw [write, getElem?_foldl_writeEntry_of_mem hcovers.nodup_instructions he hop, hi,
    Option.map_some, overwrite_eq_compiled hshape]

theorem getElem?_write_of_notMem {j : ℕ} (hj : j ∉ m.entries.map Entry.instruction) :
    (m.write s p).instructions[j]? = s.instructions[j]? :=
  getElem?_foldl_writeEntry_of_notMem hj s.instructions

/-- The patched sub-job carries the name and the parameters of the program and no others. -/
theorem carries_write (hcovers : m.Covers s.shapes) (hfits : m.Fits s.shapes p.shapes) :
    (m.write s p).Carries p := by
  refine ⟨rfl, fun i hi => ?_⟩
  obtain ⟨j, hj⟩ := List.mem_iff_getElem?.1 hi
  by_cases hentry : j ∈ m.entries.map Entry.instruction
  · obtain ⟨e, he, rfl⟩ := List.mem_map.1 hentry
    obtain ⟨-, op, -, hop, -, -⟩ := exists_of_mem hcovers hfits he
    rw [getElem?_write_of_mem hcovers hfits he hop] at hj
    exact .inr ⟨op, List.mem_of_getElem? hop, (Option.some.inj hj).symm⟩
  · rw [getElem?_write_of_notMem hentry] at hj
    exact .inl (Instruction.params_eq_nil (hcovers.isPatchable_eq_false hentry hj))

/-- The name and the parameters that stood in a sub-job have no part in the patched one. -/
theorem write_congr {t : SubJob} (hcovers : m.Covers s.shapes) (hfits : m.Fits s.shapes p.shapes)
    (hshapes : s.shapes = t.shapes) (hlisting : s.listing = t.listing) :
    m.write s p = m.write t p := by
  have hinstructions : (m.write s p).instructions = (m.write t p).instructions := by
    refine List.ext_getElem? fun j => ?_
    by_cases hentry : j ∈ m.entries.map Entry.instruction
    · obtain ⟨e, he, rfl⟩ := List.mem_map.1 hentry
      obtain ⟨-, op, -, hop, -, -⟩ := exists_of_mem hcovers hfits he
      rw [getElem?_write_of_mem hcovers hfits he hop,
        getElem?_write_of_mem (hshapes ▸ hcovers) (hshapes ▸ hfits) he hop]
    · rw [getElem?_write_of_notMem hentry, getElem?_write_of_notMem hentry]
      rcases getElem?_cases_of_map_eq hshapes j with ⟨hi, hk⟩ | ⟨i, k, hi, hk, hshape⟩
      · rw [hi, hk]
      · rw [hi, hk, Instruction.eq_of_shape_eq hshape (hcovers.isPatchable_eq_false hentry hi)]
  show (⟨p.name, (m.write s p).instructions, s.listing⟩ : SubJob) = _
  rw [hinstructions, hlisting]
  rfl

end Mapping

/-! ## Operations that are used -/

namespace Program

/-- The positions of the operations with parameters. -/
def parameterizedPositions (p : Program) : List ℕ := p.unrolled.findIdxs Operation.isParameterized

theorem mem_parameterizedPositions {p : Program} {b : ℕ} :
    b ∈ p.parameterizedPositions ↔
      ∃ op, p.unrolled[b]? = some op ∧ op.isParameterized = true := by
  rw [parameterizedPositions, List.mem_findIdxs_iff_exists_getElem_pos]
  constructor
  · rintro ⟨hb, hop⟩
    exact ⟨_, List.getElem?_eq_getElem hb, hop⟩
  · rintro ⟨op, hget, hop⟩
    obtain ⟨hb, rfl⟩ := List.getElem?_eq_some_iff.1 hget
    exact ⟨hb, hop⟩

theorem length_parameterizedPositions (p : Program) :
    p.parameterizedPositions.length = p.parameterizedCount := List.length_findIdxs

theorem nodup_parameterizedPositions (p : Program) : p.parameterizedPositions.Nodup :=
  List.pairwise_findIdxs.imp fun h => h.ne

end Program

namespace Mapping

/-- Operation `b` is the source of exactly one instruction. -/
def FeedsOnce (m : Mapping) (b : ℕ) : Prop := ∃! i, (⟨i, b⟩ : Entry) ∈ m.entries

theorem feedsOnce_iff {m : Mapping} (hnodup : m.sources.Nodup) {b : ℕ} :
    m.FeedsOnce b ↔ b ∈ m.sources := by
  constructor
  · rintro ⟨i, hi, -⟩
    exact List.mem_map.2 ⟨_, hi, rfl⟩
  · intro hb
    obtain ⟨e, he, rfl⟩ := List.mem_map.1 hb
    refine ⟨e.instruction, he, fun i hi => ?_⟩
    rw [← List.inj_on_of_nodup_map hnodup hi he rfl]

/-- Operations that are used twice are excluded, and none is left out exactly when the sub-job has
as many instructions with parameters as the program has operations. -/
theorem forall_feedsOnce_iff {m : Mapping} {s : SubJob} {p : Program} (hcovers : m.Covers s.shapes)
    (hfits : m.Fits s.shapes p.shapes) :
    (∀ b op, p.unrolled[b]? = some op → op.isParameterized = true → m.FeedsOnce b) ↔
      s.patchableCount = p.parameterizedCount := by
  obtain ⟨hpositions, hnodup⟩ := covers_shapes_iff.1 hcovers
  have hcount : m.sources.length = s.patchableCount := by
    rw [sources, List.length_map, ← List.length_map Entry.instruction, hpositions,
      s.length_patchablePositions]
  have hsubset : m.sources ⊆ p.parameterizedPositions := by
    intro b hb
    obtain ⟨e, he, rfl⟩ := List.mem_map.1 hb
    obtain ⟨-, op, -, hop, -, hparameterized⟩ := exists_of_mem hcovers hfits he
    exact Program.mem_parameterizedPositions.2 ⟨op, hop, hparameterized⟩
  have hfeeds : (∀ b op, p.unrolled[b]? = some op → op.isParameterized = true → m.FeedsOnce b) ↔
      p.parameterizedPositions ⊆ m.sources := by
    constructor
    · intro h b hb
      obtain ⟨op, hop, hparameterized⟩ := Program.mem_parameterizedPositions.1 hb
      exact (feedsOnce_iff hnodup).1 (h b op hop hparameterized)
    · intro h b op hop hparameterized
      exact (feedsOnce_iff hnodup).2
        (h (Program.mem_parameterizedPositions.2 ⟨op, hop, hparameterized⟩))
  have hle := (List.subperm_of_subset hnodup hsubset).length_le
  rw [hfeeds, ← hcount, ← p.length_parameterizedPositions]
  constructor
  · intro h
    exact le_antisymm hle
      (List.subperm_of_subset p.nodup_parameterizedPositions h).length_le
  · intro h
    exact ((List.subperm_of_subset hnodup hsubset).perm_of_length_le h.ge).symm.subset

end Mapping

end CircuitCache
