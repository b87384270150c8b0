import Mathlib
import CircuitCache.Proofs.Outside

/-!
# Listings of patched jobs

A listing is the text for the very parameters that a sub-job was compiled with, so a patched job
should have none.  Inserting a job drops its listings.  But patching and decoding keep what they
find, so a listing that comes from outside is handed out with any slot that can be patched.
-/

namespace CircuitCache

theorem map_fst_zip_eq_take {α β : Type} (xs : List α) (ys : List β) :
    (xs.zip ys).map Prod.fst = xs.take ys.length := by
  induction xs generalizing ys with
  | nil => simp
  | cons x xs ih => cases ys <;> simp [ih]

theorem zip_map_take {α β : Type} (f : α → β) (n : ℕ) (xs : List α) :
    xs.zip ((xs.take n).map f) = (xs.take n).map fun x => (x, f x) := by
  induction xs generalizing n with
  | nil => simp
  | cons x xs ih =>
    cases n with
    | zero => rfl
    | succ n => rw [List.take_succ_cons, List.map_cons, List.zip_cons_cons, ih, List.map_cons]

/-! ## Chunks -/

namespace Chunk

theorem IsWhole.sound {c : Chunk} (h : c.IsWhole) :
    c.Sound (fun _ => True) fun _ => True := ⟨h, trivial, fun _ _ => trivial⟩

/-- For every `n`, if the first `n` slots accept a program each, they have no listing. -/
def PatchesUnlisted (c : Chunk) : Prop :=
  ∀ n, (∀ k ∈ (c.slots.map Slot.skeleton).take n, ∃ p, k.Accepts p) →
    ∀ k ∈ (c.slots.map Slot.skeleton).take n, k.listing = none

/-- A patch rewrites the first slots and leaves their listings, so it hands out none exactly when they
have none. -/
theorem IsWhole.patchesUnlisted_iff {c : Chunk} (h : c.IsWhole) (index : ℕ) :
    c.PatchesUnlisted ↔ ∀ ps subJobs, c.patchCopy index ps = .ok subJobs →
      ∀ s ∈ subJobs, s.listing = none := by
  obtain ⟨backend, xs, rfl⟩ := h.exists_slots
  simp only [PatchesUnlisted, slots_ofSlots, ← List.map_take, List.forall_mem_map]
  constructor
  · intro hxs ps subJobs hpatch s hs
    obtain ⟨hle, haccepts, rfl⟩ := patchCopy_ofSlots_eq_ok_iff.1 hpatch
    rw [← List.map_uncurry_zip_eq_zipWith, List.map_map] at hs
    obtain ⟨xp, hxp, rfl⟩ := List.mem_map.1 hs
    have hfirst : ∀ x ∈ xs.take ps.length, ∃ p, x.skeleton.Accepts p := by
      rw [← map_fst_zip_eq_take, List.forall_mem_map]
      exact fun xp hxp => ⟨xp.2, haccepts xp hxp⟩
    apply hxs ps.length hfirst xp.1
    rw [← map_fst_zip_eq_take]
    exact List.mem_map_of_mem hxp
  · intro hpatch n haccepts x hx
    obtain ⟨p₀, -⟩ := haccepts x hx
    have : Nonempty Program := ⟨p₀⟩
    choose! p hp using haccepts
    have hok : (ofSlots backend xs).patchCopy index ((xs.take n).map p) =
        .ok ((xs.take n).map fun x => (x.write (p x)).subJob) := by
      rw [patchCopy_ofSlots_eq_ok_iff, zip_map_take, List.forall_mem_map,
        ← List.map_uncurry_zip_eq_zipWith, zip_map_take, List.map_map, List.map_map]
      refine ⟨?_, hp, rfl⟩
      simp
    exact hpatch _ _ hok (x.write (p x)).subJob (List.mem_map.2 ⟨x, hx, rfl⟩)

/-- A copy of the first slot has the listing of that slot, whose program it accepts. -/
theorem PatchesUnlisted.grow {c d : Chunk} {index count : ℕ} (hwhole : c.IsWhole)
    (h : c.PatchesUnlisted) (hgrow : c.grow index count = .ok d) : d.PatchesUnlisted := by
  obtain ⟨backend, xs, rfl⟩ := hwhole.exists_slots
  rcases grow_ofSlots_eq_ok_iff.1 hgrow with ⟨-, rfl⟩ | ⟨-, x, hx, rfl⟩
  · exact h
  · simp only [PatchesUnlisted, slots_ofSlots, ← List.map_take, List.forall_mem_map] at h ⊢
    intro n haccepts y hy
    have hbefore : xs.take n ⊆ (fill count x xs).take n := by
      rw [fill, List.take_append]
      exact List.subset_append_left _ _
    have hxs := h n fun y hy => haccepts y (hbefore hy)
    obtain ⟨rest, rfl⟩ := List.head?_eq_some_iff.1 hx
    rw [fill, List.take_append] at hy
    rcases List.mem_append.1 hy with hold | hcopy
    · exact hxs y hold
    · obtain rfl := List.eq_of_mem_replicate (List.mem_of_mem_take hcopy)
      apply hxs
      cases n with
      | zero => simp at hcopy
      | succ n => simp

theorem PatchesUnlisted.congr {c d : Chunk}
    (h : d.slots.map Slot.skeleton = c.slots.map Slot.skeleton) (hc : c.PatchesUnlisted) :
    d.PatchesUnlisted := by
  rw [PatchesUnlisted, h]
  exact hc

/-- A chunk of which no patch hands out a listing stays one. -/
theorem lasts_patchesUnlisted (limit : ℕ) :
    Lasts limit fun c => c.IsWhole ∧ c.PatchesUnlisted where
  grow hc _ hgrow := ⟨(hc.1.sound.grow hgrow).whole, hc.2.grow hc.1 hgrow⟩
  patch hc hpatch := by
    have hskeletons := map_skeleton_slots_of_patchInPlace hc.1 hpatch
    exact ⟨(hc.1.sound.patchInPlace hpatch).whole, hc.2.congr hskeletons⟩
  reread hc hread :=
    ⟨(hc.1.sound.reread? hread).whole, hc.2.congr (map_skeleton_slots_of_reread? hread)⟩

/-- A job that is inserted has no listings at all. -/
theorem patchesUnlisted_of_compiled {job : Job} {ps : List Program} {c : Chunk}
    (h : Store.compiled job ps = .ok c) : c.IsWhole ∧ c.PatchesUnlisted := by
  have hunlisted : c.Sound (fun _ => True) fun k => k.listing = none := by
    apply sound_compiled trivial ?_ h
    rintro p - s - x ⟨order, -, rfl⟩
    rfl
  refine ⟨hunlisted.whole, fun n _ k hk => ?_⟩
  obtain ⟨x, hx, rfl⟩ := List.mem_map.1 (List.mem_of_mem_take hk)
  exact hunlisted.slots x hx

end Chunk

/-! ## Stores -/

namespace Store

/-- A patch of chunk `index` hands out the job, in the mode of the store or in one asked for. -/
def HandsOut (s : Store) (index : ℕ) (ps : List Program) (r : Patched) : Prop :=
  (s.patch index ps).1 = .ok r ∨ (s.patchCopy index ps).1 = .ok r ∨
    (s.patchInPlace index ps).1 = .ok r

/-- The sub-jobs that are handed out are those of a patched copy. -/
theorem HandsOut.exists_patchCopy {s : Store} {index : ℕ} {ps : List Program} {r : Patched}
    (h : s.HandsOut index ps r) :
    ∃ c, s.chunk? index = some c ∧ c.patchCopy index ps = .ok r.subJobs := by
  have hcopy (h : (s.patchCopy index ps).1 = .ok r) :
      ∃ c, s.chunk? index = some c ∧ c.patchCopy index ps = .ok r.subJobs := by
    rcases s.patchCopy_cases index ps with ⟨e, heq⟩ | ⟨c, subJobs, hc, hpatch, heq⟩
    · rw [heq] at h
      cases h
    · rw [heq] at h
      cases h
      exact ⟨c, hc, hpatch⟩
  have hinPlace (h : (s.patchInPlace index ps).1 = .ok r) :
      ∃ c, s.chunk? index = some c ∧ c.patchCopy index ps = .ok r.subJobs := by
    rcases s.patchInPlace_cases index ps with ⟨e, heq⟩ | ⟨c, d, hc, hpatch, heq⟩
    · rw [heq] at h
      cases h
    · rw [heq] at h
      cases h
      refine ⟨c, hc, ?_⟩
      rw [Chunk.patchCopy_eq_map, hpatch]
      rfl
  rcases h with h | h | h
  · rcases s.patch_cases index ps with heq | heq
    · exact hcopy (heq ▸ h)
    · exact hinPlace (heq ▸ h)
  · exact hcopy h
  · exact hinPlace h

theorem handsOut_of_patchCopy {s : Store} {index : ℕ} {ps : List Program} {c : Chunk}
    {subJobs : List SubJob} (hc : s.chunk? index = some c)
    (hpatch : c.patchCopy index ps = .ok subJobs) :
    s.HandsOut index ps ⟨index, c.job.backend, subJobs, false⟩ := by
  refine .inr (.inl ?_)
  simp only [patchCopy, hc, hpatch]

/-- No job of any run is handed out with a listing exactly when no bytes from outside store one in
the first slots of a chunk that each accept some program. -/
theorem handsOut_unlisted_iff (config : Config) (S : Bytes → Prop) :
    (∀ backing calls, OnlyFromOutside S backing calls → ∀ index ps r,
      ((opened config backing).run calls).HandsOut index ps r →
        ∀ s ∈ r.subJobs, s.listing = none) ↔
    ∀ bytes, S bytes → Stores Chunk.PatchesUnlisted bytes := by
  have hchunks := forall_chunk?_run_iff (S := S)
    (Chunk.lasts_patchesUnlisted config.submissionSizeLimit)
    fun _ _ _ _ hc => Chunk.patchesUnlisted_of_compiled hc
  constructor
  · intro hruns bytes hbytes snapshot hdecode c hc
    refine (hchunks.1 ?_ bytes hbytes snapshot hdecode c hc).2
    intro backing calls hcalls index c hc
    have hwhole := isWhole_chunk?_run hc
    refine ⟨hwhole, (hwhole.patchesUnlisted_iff index).2 fun ps subJobs hpatch => ?_⟩
    exact hruns backing calls hcalls index ps _ (handsOut_of_patchCopy hc hpatch)
  · intro hbytes backing calls hcalls index ps r hr
    obtain ⟨c, hc, hpatch⟩ := hr.exists_patchCopy
    have hstores (bytes : Bytes) (h : S bytes) :
        Stores (fun c => c.IsWhole ∧ c.PatchesUnlisted) bytes := fun snapshot hdecode c hc =>
      ⟨(Chunk.sound_of_verify (Snapshot.verify_of_decode hdecode c hc)).whole,
        hbytes bytes h snapshot hdecode c hc⟩
    obtain ⟨hwhole, hunlisted⟩ := hchunks.2 hstores backing calls hcalls index c hc
    exact (hwhole.patchesUnlisted_iff index).1 hunlisted ps r.subJobs hpatch

end Store

namespace Example

/-- The chunk of the rotation, with the listing that it was compiled with. -/
def listedChunk : Chunk :=
  .ofSlots "device" [⟨⟨"turn", [⟨.rz, [0], [.zero]⟩], some "rz(0) q[0];"⟩, ⟨[⟨0, 0⟩]⟩,
    Key.ofProgram rotation⟩]

/-- The rotation by one is handed out with the listing of the rotation by zero. -/
theorem listedChunk_hands_out_listing :
    let s := Store.opened { fastMode := true }
      (.memory (some (Snapshot.encode noon [some listedChunk])))
    (s.patch 0 [rotation]).1 = .ok ⟨0, "device",
      [⟨"turn", [⟨.rz, [0], [.ofInt 1]⟩], some "rz(0) q[0];"⟩], true⟩ := by
  decide +kernel

end Example

end CircuitCache
