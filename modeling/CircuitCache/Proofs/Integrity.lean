import Mathlib
import CircuitCache.Proofs.Sound

/-!
# The chunks of every run

Whatever calls are made of a store, over whatever backing and with whatever bytes from outside, its
chunks are whole and pass verification.  Coverage is a property of skeletons, so it lasts; inserted
jobs have it because their mappings come from pairings, and decoded chunks because they were verified.
-/

namespace CircuitCache

/-- The mapping of a slot that was just compiled covers its sub-job. -/
theorem Slot.IsCompiled.covers {p : Program} {s : SubJob} {x : Slot} (h : x.IsCompiled p s) :
    x.mapping.Covers x.subJob.shapes := by
  obtain ⟨order, horder, rfl⟩ := h
  exact Mapping.covers_ofOrder horder

namespace Store

/-- Nothing that a call can bring in leaves a slot uncovered. -/
theorem trusted_covers (a : Action) :
    a.Trusted (fun _ => True) fun x => x.mapping.Covers x.shapes := by
  cases a with
  | insert chunk job ps =>
    exact fun c hc => sound_compiled trivial (fun _ _ _ _ x hx => hx.covers) hc
  | loadBytes bytes => exact soundBytes_covers bytes
  | overwrite bytes => exact soundBytes_covers bytes
  | lookup | ensureCapacity | patch | patchCopy | patchInPlace | clear | reload | restart | cycle =>
    trivial

theorem isWhole_chunk?_run {config : Config} {backing : Backing} {calls : List (Instant × Action)}
    {index : ℕ} {c : Chunk} (hc : ((opened config backing).run calls).chunk? index = some c) :
    c.IsWhole := by
  have hopened : (opened config backing).Holds (fun _ => True) fun k => k.mapping.Covers k.shapes :=
    holds_opened fun bytes _ => soundBytes_covers bytes
  exact ((hopened.run fun call _ => trusted_covers call.2).chunk? hc).whole

/-- After every run each chunk has as many sub-jobs and keys as mappings and passes verification:
the entries of each mapping are about exactly the instructions with parameters, in order, and no two
are about one operation.  So as many sub-jobs as there may be programs can be taken, and where there
is a slot, there is a first one of everything. -/
theorem verify_chunk_of_run (config : Config) (backing : Backing) (calls : List (Instant × Action))
    {index : Nat} {c : Chunk} (hc : ((opened config backing).run calls).chunk? index = some c) :
    (c.job.subJobs.length = c.mappings.length ∧ c.keys.length = c.mappings.length) ∧
    c.verify = .ok () ∧
    (∀ (slot : Nat) (s : SubJob) (m : Mapping), c.job.subJobs[slot]? = some s →
      c.mappings[slot]? = some m →
      m.entries.map Entry.instruction = s.patchablePositions ∧
        (m.entries.map Entry.operation).Nodup) ∧
    (∀ ps : List Program, ps.length ≤ c.slotCount → ps.length ≤ c.job.subJobs.length) ∧
    (0 < c.slotCount →
      0 < c.job.subJobs.length ∧ 0 < c.mappings.length ∧ 0 < c.keys.length) := by
  have hholds : ((opened config backing).run calls).Holds (fun _ => True)
      fun x => x.mapping.Covers x.shapes :=
    (holds_opened fun bytes _ => soundBytes_covers bytes).run fun call _ => trusted_covers call.2
  have hsound := hholds.chunk? hc
  have hsubJobs := hsound.whole.subJobs
  have hkeys := hsound.whole.keys
  refine ⟨⟨hsubJobs, hkeys⟩, Chunk.verify_eq_ok_iff.2 ⟨hsound.whole, hsound.slots⟩, ?_, ?_, ?_⟩
  · intro slot s m hs hm
    obtain ⟨backend, xs, rfl, -, hxs⟩ := hsound.exists_slots
    rw [Chunk.ofSlots, List.getElem?_map, Option.map_eq_some_iff] at hs hm
    obtain ⟨x, hx, rfl⟩ := hs
    obtain ⟨y, hy, rfl⟩ := hm
    obtain rfl := Option.some.inj (hx.symm.trans hy)
    exact Mapping.covers_shapes_iff.1 (hxs x (List.mem_of_getElem? hx))
  · intro ps hps
    rw [hsubJobs]
    exact hps
  · intro hpos
    rw [hsubJobs, hkeys]
    exact ⟨hpos, hpos, hpos⟩

end Store

/-! ## An example -/

namespace Example

/-- One rotation by an integer angle. -/
def rotation : Program := .ofOperations "turn" [⟨.rz, [0], [.int 1]⟩]

/-- The rotation by another angle. -/
def otherRotation : Program := .ofOperations "other" [⟨.rz, [0], [.int 2]⟩]

/-- The rotation as it is compiled, for another angle. -/
def rotationJob : Job := ⟨"device", [⟨"turn", [⟨.rz, [0], [.zero]⟩], some "rz q[0];"⟩]⟩

/-- The chunk of the rotation with a second slot. -/
def rotationChunk : Chunk :=
  .ofSlots "device" (List.replicate 2
    ⟨⟨"turn", [⟨.rz, [0], [.zero]⟩], none⟩, ⟨[⟨0, 0⟩]⟩, Key.ofProgram rotation⟩)

/-- A time to save at. -/
def noon : Instant := ⟨⟨2024, 1, 1⟩, 12, 0, 0, 0⟩

/-- The rotation is inserted and given a second slot. -/
theorem verify_rotationChunk :
    ((Store.opened {} .none).run [(noon, .insert 0 rotationJob [rotation]),
      (noon, .ensureCapacity 0 2)]).chunk? 0 = some rotationChunk ∧
    rotationChunk.verify = .ok () := by
  have hc : ((Store.opened {} .none).run [(noon, .insert 0 rotationJob [rotation]),
      (noon, .ensureCapacity 0 2)]).chunk? 0 = some rotationChunk := rfl
  exact ⟨hc, (Store.verify_chunk_of_run {} .none _ hc).2.1⟩

end Example

end CircuitCache
