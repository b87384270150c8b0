import Mathlib
import CircuitCache.Proofs.Integrity

/-!
# Patching a chunk itself

A patch in place does what a patch of a copy does, to the chunk itself: it gives the same sub-jobs or
the same error, and the chunk has these sub-jobs first afterwards.  Everything else in the store
stays, the rest of the chunk included (`Store.patchInPlace_of_run`).
-/

namespace CircuitCache

/-! ## Sub-jobs -/

/-- The sub-job `t` is `s` with another name and with other values of the parameters: it has the same
listing, and one by one the same kinds, addresses and numbers of parameters. -/
structure SubJob.Renews (s t : SubJob) : Prop where
  listing : t.listing = s.listing
  shapes : t.shapes = s.shapes

theorem SubJob.Renews.refl (s : SubJob) : s.Renews s := ⟨rfl, rfl⟩

theorem Mapping.renews_write (m : Mapping) (s : SubJob) (p : Program) : s.Renews (m.write s p) :=
  ⟨rfl, m.shapes_write s p⟩

/-! ## Chunks -/

namespace Chunk

theorem renews_writeSlots (ss : List SubJob) (ms : List Mapping) (ps : List Program) :
    List.Forall₂ SubJob.Renews ss (writeSlots ss ms ps) := by
  induction ss, ms, ps using writeSlots.induct with
  | case1 s ss m ms p ps ih =>
    rw [writeSlots]
    exact .cons (m.renews_write s p) ih
  | case2 ss ms ps h =>
    rw [writeSlots]
    · exact List.forall₂_same.2 fun s _ => .refl s
    · exact h

/-- Sub-jobs without a program are not written. -/
theorem drop_writeSlots (ss : List SubJob) (ms : List Mapping) (ps : List Program) :
    (writeSlots ss ms ps).drop ps.length = ss.drop ps.length := by
  induction ss, ms, ps using writeSlots.induct with
  | case1 s ss m ms p ps ih => rw [writeSlots, List.length_cons, List.drop_succ_cons, ih]; rfl
  | case2 ss ms ps h =>
    rw [writeSlots]
    exact h

/-- The chunk with its first sub-jobs replaced. -/
def withFirst (c : Chunk) (subJobs : List SubJob) : Chunk :=
  { c with job.subJobs := subJobs ++ c.job.subJobs.drop subJobs.length }

/-- A patch in place replaces the sub-jobs of the programs, each by one that renews it. -/
theorem IsWhole.patchInPlace {c d : Chunk} (hc : c.IsWhole) {index : ℕ} {ps : List Program}
    (h : c.patchInPlace index ps = .ok d) :
    (d.job.subJobs.take ps.length).length = ps.length ∧
      List.Forall₂ SubJob.Renews (c.job.subJobs.take ps.length) (d.job.subJobs.take ps.length) ∧
      d = c.withFirst (d.job.subJobs.take ps.length) := by
  obtain ⟨hle, rfl⟩ := patchInPlace_eq_ok h
  have hrenews := renews_writeSlots c.job.subJobs c.mappings ps
  have hlength : ((writeSlots c.job.subJobs c.mappings ps).take ps.length).length = ps.length := by
    rw [List.length_take, ← hrenews.length_eq, hc.subJobs]
    exact min_eq_left hle
  refine ⟨hlength, List.forall₂_take _ hrenews, ?_⟩
  rw [withFirst, hlength, ← drop_writeSlots c.job.subJobs c.mappings ps, List.take_append_drop]

end Chunk

/-! ## Stores -/

namespace Store

theorem chunks_patchCopy (s : Store) (index : ℕ) (ps : List Program) :
    (s.patchCopy index ps).2.chunks = s.chunks := by
  rcases s.patchCopy_cases index ps with ⟨e, heq⟩ | ⟨c, subJobs, -, -, heq⟩
  · rw [heq]
  · rw [heq]
    rfl

/-- After every run, a patch in place gives the error, or the chunk, the backend and the sub-jobs
that a patch of a copy gives.  The one of a copy changes neither chunks nor what is saved.  The one in
place, when it succeeds, puts the sub-jobs that it gives first in the chunk and counts a patch; the
other sub-jobs, the backend, the mappings and the keys of the chunk, all other chunks and what is
saved stay.  The new sub-jobs have other names and other values of parameters than those that were
there, and differ from them in nothing else. -/
theorem patchInPlace_of_run (config : Config) (backing : Backing) (calls : List (Instant × Action))
    (index : ℕ) (ps : List Program) :
    let s := (opened config backing).run calls
    let r := s.patchInPlace index ps
    r.1.map Patched.owned = (s.patchCopy index ps).1 ∧
    ((s.patchCopy index ps).2.chunks = s.chunks ∧ (s.patchCopy index ps).2.backing = s.backing) ∧
    ∀ job, r.1 = .ok job → ∃ c, s.chunk? index = some c ∧ job.subJobs.length = ps.length ∧
      List.Forall₂ SubJob.Renews (c.job.subJobs.take ps.length) job.subJobs ∧
      r.2 = { s with
        chunks := s.chunks.set index (some (c.withFirst job.subJobs))
        counters.patches := s.counters.patches + 1 } := by
  intro s r
  refine ⟨s.map_owned_patchInPlace index ps,
    ⟨s.chunks_patchCopy index ps, (s.sameSetting_patchCopy index ps).backing⟩, fun job hjob => ?_⟩
  rcases s.patchInPlace_cases index ps with ⟨e, heq⟩ | ⟨c, d, hc, hpatch, heq⟩
  · rw [show r = _ from heq] at hjob
    cases hjob
  · rw [show r = _ from heq, Except.ok.injEq] at hjob
    obtain ⟨hlength, hrenews, hd⟩ := (isWhole_chunk?_run hc).patchInPlace hpatch
    have hindex : index < s.chunks.length :=
      (List.getElem?_eq_some_iff.1 (getElem?_of_chunk? hc)).1
    subst hjob
    refine ⟨c, hc, hlength, hrenews, ?_⟩
    rw [show r = _ from heq, ← hd, ← place_eq_set hindex]
    rfl

end Store

namespace Example

/-- Of a chunk with two slots, copied to index 1, the first slot is patched: neither the second slot
nor the copy changes. -/
theorem patchInPlace_rotationChunk :
    let s := (Store.opened {} .none).run [(noon, .insert 0 rotationJob [rotation]),
      (noon, .ensureCapacity 0 2), (noon, .ensureCapacity 1 2)]
    let r := s.patchInPlace 0 [otherRotation]
    ∃ job, r.1 = .ok job ∧ job.subJobs = [⟨"other", [⟨.rz, [0], [.ofInt 2]⟩], none⟩] ∧
      r.2.chunk? 0 = some (rotationChunk.withFirst job.subJobs) ∧
      r.2.chunk? 1 = some rotationChunk := by
  intro s r
  have hjob : r.1 = .ok ⟨0, "device", [⟨"other", [⟨.rz, [0], [.ofInt 2]⟩], none⟩], true⟩ := by
    decide +kernel
  obtain ⟨c, hc, -, -, hafter⟩ :=
    (Store.patchInPlace_of_run {} .none [(noon, .insert 0 rotationJob [rotation]),
      (noon, .ensureCapacity 0 2), (noon, .ensureCapacity 1 2)] 0 [otherRotation]).2.2 _ hjob
  obtain rfl := Option.some.inj ((show s.chunk? 0 = some rotationChunk from rfl).symm.trans hc)
  refine ⟨_, hjob, rfl, ?_, ?_⟩
  · rw [show r.2 = _ from hafter]
    rfl
  · rw [show r.2 = _ from hafter]
    rfl

end Example

end CircuitCache
