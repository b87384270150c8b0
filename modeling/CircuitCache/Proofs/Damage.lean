import Mathlib
import CircuitCache.Proofs.Overwriting
import CircuitCache.Proofs.Settled

/-!
# Patching decoded chunks

Decoding verifies chunks against themselves, and a patch checks the entries of a mapping and the
key. Together they see to it that no parameter of a program ends up in a wrong place or in two
places, but not that every parameter ends up somewhere.
-/

namespace CircuitCache

namespace Snapshot

/-- Bytes were decoded, and a batch was patched into one of the chunks, in place or in a copy. Each
entry of a slot's mapping has led from an operation with parameters to an instruction that now
carries it out, these are all instructions with parameters, and no operation was used twice. Every
operation with parameters was used exactly when the sub-job has as many instructions with parameters
as the program has operations with parameters. -/
theorem feedsOnce_iff_of_decode {bytes : Bytes} {snapshot : Snapshot}
    (hdecode : decode bytes = .ok snapshot) {c d : Chunk} (hc : some c ∈ snapshot.chunks)
    {index : ℕ} {ps : List Program} (hpatch : c.patchInPlace index ps = .ok d) :
    c.patchCopy index ps = .ok (d.job.subJobs.take ps.length) ∧
    ∀ (slot : ℕ) (p : Program), ps[slot]? = some p → ∃ s m,
      d.job.subJobs[slot]? = some s ∧ c.mappings[slot]? = some m ∧
      (∀ e ∈ m.entries, ∃ op, p.unrolled[e.operation]? = some op ∧ op.isParameterized = true ∧
        s.instructions[e.instruction]? = some op.compiled) ∧
      m.entries.map Entry.instruction = s.patchablePositions ∧ m.sources.Nodup ∧
      ((∀ b op, p.unrolled[b]? = some op → op.isParameterized = true → m.FeedsOnce b) ↔
        s.patchableCount = p.parameterizedCount) := by
  refine ⟨by rw [Chunk.patchCopy_eq_map, hpatch]; rfl, fun slot p hp => ?_⟩
  obtain ⟨backend, xs, rfl, -, hxs⟩ :=
    (Chunk.sound_of_verify (verify_of_decode hdecode c hc)).exists_slots
  obtain ⟨hlength, haccepts, rfl⟩ := Chunk.patchInPlace_ofSlots_eq_ok_iff.1 hpatch
  have hslot : slot < ps.length := (List.getElem?_eq_some_iff.1 hp).1
  obtain ⟨x, hx⟩ : ∃ x, xs[slot]? = some x := ⟨_, List.getElem?_eq_getElem (by omega)⟩
  have hwritten : (Slot.writeAll xs ps)[slot]? = some (x.write p) := by
    rw [← List.getElem?_take_of_lt hslot, Slot.take_writeAll hlength, List.getElem?_zipWith, hx, hp]
  have hfits : x.mapping.Fits x.subJob.shapes p.shapes := by
    refine (haccepts (x, p) ?_).1
    exact List.mem_of_getElem? (List.getElem?_zip_eq_some.2 ⟨hx, hp⟩)
  have hcovers : x.mapping.Covers x.subJob.shapes := hxs x (List.mem_of_getElem? hx)
  have hshapes : (x.mapping.write x.subJob p).shapes = x.subJob.shapes :=
    Mapping.shapes_write _ _ p
  refine ⟨(x.write p).subJob, x.mapping, ?_, ?_, fun e he => ?_, ?_, hcovers.2, ?_⟩
  · rw [Chunk.ofSlots, List.getElem?_map, hwritten, Option.map_some]
  · rw [Chunk.ofSlots, List.getElem?_map, hx, Option.map_some]
  · obtain ⟨-, op, -, hop, -, hparameterized⟩ := Mapping.exists_of_mem hcovers hfits he
    exact ⟨op, hop, hparameterized, Mapping.getElem?_write_of_mem hcovers hfits he hop⟩
  · exact (Mapping.covers_shapes_iff.1 (hshapes.symm ▸ hcovers)).1
  · exact Mapping.forall_feedsOnce_iff (hshapes.symm ▸ hcovers) (hshapes.symm ▸ hfits)

end Snapshot

/-! ## Examples -/

namespace Example

/-- The chunk of the rotation after its first slot was patched with the other one. -/
def patchedChunk : Chunk :=
  .ofSlots "device" [
    ⟨⟨"other", [⟨.rz, [0], [.ofInt 2]⟩], none⟩, ⟨[⟨0, 0⟩]⟩, Key.ofProgram rotation⟩,
    ⟨⟨"turn", [⟨.rz, [0], [.zero]⟩], none⟩, ⟨[⟨0, 0⟩]⟩, Key.ofProgram rotation⟩]

/-- The chunk of a job that was compiled from the rotation uses all parameters. -/
theorem feedsOnce_otherRotation :
    Snapshot.decode (Snapshot.encode noon [some rotationChunk]) =
      .ok ⟨Snapshot.currentVersion, noon, [some rotationChunk]⟩ ∧
    rotationChunk.patchInPlace 0 [otherRotation] = .ok patchedChunk ∧
    ∀ m, rotationChunk.mappings[0]? = some m → ∀ b op, otherRotation.unrolled[b]? = some op →
      op.isParameterized = true → m.FeedsOnce b := by
  have hdecode : Snapshot.decode (Snapshot.encode noon [some rotationChunk]) =
      .ok ⟨Snapshot.currentVersion, noon, [some rotationChunk]⟩ := by
    decide +kernel
  have hpatch : rotationChunk.patchInPlace 0 [otherRotation] = .ok patchedChunk := by
    decide +kernel
  refine ⟨hdecode, hpatch, fun m hm => ?_⟩
  obtain ⟨s, n, hs, hn, -, -, -, hiff⟩ :=
    (Snapshot.feedsOnce_iff_of_decode hdecode List.mem_cons_self hpatch).2 0 otherRotation rfl
  obtain rfl := Option.some.inj (hm.symm.trans hn)
  obtain rfl : ⟨"other", [⟨.rz, [0], [.ofInt 2]⟩], none⟩ = s := Option.some.inj hs
  exact hiff.2 rfl

/-- A chunk that claims to be that of the rotation but has no instructions: the key is right, and
the empty mapping covers the empty sub-job. -/
def hollowChunk : Chunk :=
  .ofSlots "device" [⟨⟨"turn", [], none⟩, ⟨[]⟩, Key.ofProgram rotation⟩]

/-- The hollow chunk is decoded and takes the rotation, whose parameter goes nowhere. -/
theorem hollowChunk_drops_parameter :
    Snapshot.decode (Snapshot.encode noon [some hollowChunk]) =
      .ok ⟨Snapshot.currentVersion, noon, [some hollowChunk]⟩ ∧
    hollowChunk.patchInPlace 0 [rotation] = .ok hollowChunk ∧
    hollowChunk.patchCopy 0 [rotation] = .ok [⟨"turn", [], none⟩] ∧
    ¬∀ m, hollowChunk.mappings[0]? = some m → ∀ b op, rotation.unrolled[b]? = some op →
      op.isParameterized = true → m.FeedsOnce b := by
  refine ⟨by decide +kernel, by decide +kernel, by decide +kernel, fun h => ?_⟩
  obtain ⟨i, hi, -⟩ := h ⟨[]⟩ rfl 0 ⟨.rz, [0], [.int 1]⟩ rfl rfl
  exact List.not_mem_nil hi

end Example

end CircuitCache
