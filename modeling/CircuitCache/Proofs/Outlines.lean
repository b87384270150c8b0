import Mathlib
import CircuitCache.Proofs.Contents
import CircuitCache.Proofs.Overwriting
import CircuitCache.Proofs.Settled

/-!
# Chunks without their parameters

The outline of a chunk is its backend and the skeletons of its slots: everything but the names and
the parameters of its sub-jobs. What a store does with a chunk is decided by the outline alone, the
sub-jobs that it hands out included, as long as every mapping covers its sub-job.
-/

namespace CircuitCache

/-- What is left of a chunk without the names and the parameters of its sub-jobs. -/
structure Outline where
  backend : String
  slots : List Skeleton

/-- The mapping covers the shapes. -/
def Skeleton.IsCovered (x : Skeleton) : Prop := x.mapping.Covers x.shapes

/-! ## Slots of equal skeletons -/

namespace Slot

/-- What is written to a slot depends on its skeleton alone. -/
theorem write_congr {x y : Slot} {p : Program} (hcovers : x.skeleton.IsCovered)
    (haccepts : x.skeleton.Accepts p) (h : x.skeleton = y.skeleton) : x.write p = y.write p := by
  have hshapes : x.subJob.shapes = y.subJob.shapes := congrArg Skeleton.shapes h
  have hlisting : x.subJob.listing = y.subJob.listing := congrArg Skeleton.listing h
  have hmapping : x.mapping = y.mapping := congrArg Skeleton.mapping h
  have hkey : x.key = y.key := congrArg Skeleton.key h
  have hwritten : x.mapping.write x.subJob p = x.mapping.write y.subJob p :=
    Mapping.write_congr hcovers haccepts.1 hshapes hlisting
  rw [write, write, hwritten, hmapping, hkey]

variable {xs ys : List Slot}

theorem length_eq_of_skeletons (h : xs.map skeleton = ys.map skeleton) : xs.length = ys.length := by
  simpa using congrArg List.length h

/-- Slots of equal skeletons agree in all that skeletons tell. -/
theorem map_eq_of_skeletons {α : Type} (g : Skeleton → α) (h : xs.map skeleton = ys.map skeleton) :
    xs.map (fun x => g x.skeleton) = ys.map fun x => g x.skeleton := by
  simpa [Function.comp_def] using congrArg (List.map g) h

theorem map_shapes_eq_of_skeletons (h : xs.map skeleton = ys.map skeleton) :
    (xs.map subJob).map SubJob.shapes = (ys.map subJob).map SubJob.shapes := by
  rw [List.map_map, List.map_map]
  exact map_eq_of_skeletons Skeleton.shapes h

theorem map_mapping_eq_of_skeletons (h : xs.map skeleton = ys.map skeleton) :
    xs.map mapping = ys.map mapping := map_eq_of_skeletons Skeleton.mapping h

theorem map_key_eq_of_skeletons (h : xs.map skeleton = ys.map skeleton) :
    xs.map key = ys.map key := map_eq_of_skeletons Skeleton.key h

theorem zipWith_write_congr {ps : List Program} (hcovers : ∀ x ∈ xs, x.skeleton.IsCovered)
    (haccepts : ∀ xp ∈ xs.zip ps, xp.1.skeleton.Accepts xp.2)
    (h : xs.map skeleton = ys.map skeleton) :
    List.zipWith write xs ps = List.zipWith write ys ps := by
  induction xs generalizing ys ps with
  | nil => rw [List.map_eq_nil_iff.1 h.symm]
  | cons x xs ih =>
    obtain ⟨y, ys, rfl, hy, hys⟩ := List.map_eq_cons_iff.1 h.symm
    cases ps with
    | nil => rfl
    | cons p ps =>
      rw [List.forall_mem_cons] at hcovers
      rw [List.zip_cons_cons, List.forall_mem_cons] at haccepts
      rw [List.zipWith_cons_cons, List.zipWith_cons_cons,
        write_congr hcovers.1 haccepts.1 hy.symm, ih hcovers.2 haccepts.2 hys.symm]

/-- Slots that were written carry nothing but the parameters and names of the programs. -/
theorem forall₂_carries_write {ps : List Program} (hle : ps.length ≤ xs.length)
    (hcovers : ∀ x ∈ xs, x.skeleton.IsCovered)
    (haccepts : ∀ xp ∈ xs.zip ps, xp.1.skeleton.Accepts xp.2) :
    List.Forall₂ SubJob.Carries ((List.zipWith write xs ps).map subJob) ps := by
  induction xs generalizing ps with
  | nil =>
    rw [List.length_eq_zero_iff.1 (Nat.le_zero.1 hle)]
    exact .nil
  | cons x xs ih =>
    cases ps with
    | nil => exact .nil
    | cons p ps =>
      rw [List.forall_mem_cons] at hcovers
      rw [List.zip_cons_cons, List.forall_mem_cons] at haccepts
      exact .cons (Mapping.carries_write hcovers.1 haccepts.1.1)
        (ih (Nat.le_of_succ_le_succ hle) hcovers.2 haccepts.2)

end Slot

/-! ## Checks -/

theorem Mapping.entryFault?_congr {is js : List Instruction}
    (h : is.map Instruction.shape = js.map Instruction.shape) (slot : ℕ) (ops : List Operation)
    (e : Entry) : entryFault? slot ops is e = entryFault? slot ops js e := by
  have hlength : is.length = js.length := by simpa using congrArg List.length h
  unfold entryFault?
  rcases getElem?_cases_of_map_eq h e.instruction with ⟨hi, hj⟩ | ⟨i, j, hi, hj, hshape⟩
  · rw [hi, hj, hlength]
  · have hsignature : i.signature = j.signature := congrArg Shape.signature hshape
    have harity : i.params.length = j.params.length := congrArg Shape.arity hshape
    rw [hi, hj]
    rcases ops[e.operation]? with _ | op
    · rfl
    · simp only [hsignature, harity]

theorem Mapping.firstFault?_congr {s t : SubJob} (h : s.shapes = t.shapes) (slot : ℕ) (m : Mapping)
    (p : Program) : m.firstFault? slot s p = m.firstFault? slot t p := by
  rw [firstFault?, firstFault?, funext (entryFault?_congr h slot p.unrolled)]

namespace Chunk

theorem checkSlots_congr {ss ts : List SubJob} (h : ss.map SubJob.shapes = ts.map SubJob.shapes)
    (slot : ℕ) (ms : List Mapping) (ks : List Key) (ps : List Program) :
    checkSlots slot ss ms ks ps = checkSlots slot ts ms ks ps := by
  induction ss generalizing slot ts ms ks ps with
  | nil => rw [List.map_eq_nil_iff.1 h.symm]
  | cons s ss ih =>
    obtain ⟨t, ts, rfl, ht, hts⟩ := List.map_eq_cons_iff.1 h.symm
    cases ms with
    | nil => rfl
    | cons m ms =>
      cases ps with
      | nil => rfl
      | cons p ps =>
        simp only [checkSlots, Mapping.firstFault?_congr ht.symm, ih hts.symm]

/-! ## Chunks of equal outlines -/

/-- A chunk without the names and the parameters of its sub-jobs. -/
def outline (c : Chunk) : Outline := ⟨c.job.backend, c.slots.map Slot.skeleton⟩

theorem outline_ofSlots (backend : String) (xs : List Slot) :
    (ofSlots backend xs).outline = ⟨backend, xs.map Slot.skeleton⟩ := by
  rw [outline, slots_ofSlots]
  rfl

theorem outline_reread? {c d : Chunk} (h : c.reread? = some d) : d.outline = c.outline := by
  rw [outline, outline, map_skeleton_slots_of_reread? h, (eq_of_reread? h).1]

/-- A patch leaves the outline. -/
theorem outline_patchInPlace {c d : Chunk} (hc : c.IsWhole) {index : ℕ} {ps : List Program}
    (h : c.patchInPlace index ps = .ok d) : d.outline = c.outline := by
  rw [← hc.ofSlots_slots] at h ⊢
  obtain ⟨-, -, rfl⟩ := patchInPlace_ofSlots_eq_ok_iff.1 h
  rw [outline_ofSlots, outline_ofSlots, Slot.map_skeleton_writeAll]

variable (backend : String) {xs ys : List Slot}

theorem serves_congr (h : xs.map Slot.skeleton = ys.map Slot.skeleton) (ps : List Program) :
    (ofSlots backend xs).serves ps = (ofSlots backend ys).serves ps := by
  rw [serves, serves, slotCount, slotCount, ofSlots, ofSlots, Slot.map_mapping_eq_of_skeletons h,
    Slot.map_key_eq_of_skeletons h]

/-- Growing fails alike, or gives chunks of equal outlines. -/
theorem grow_cases (h : xs.map Slot.skeleton = ys.map Slot.skeleton) (index count : ℕ) :
    (∃ e, (ofSlots backend xs).grow index count = .error e ∧
      (ofSlots backend ys).grow index count = .error e) ∨
    ∃ c d, (ofSlots backend xs).grow index count = .ok c ∧
      (ofSlots backend ys).grow index count = .ok d ∧ c.outline = d.outline := by
  have hlength := Slot.length_eq_of_skeletons h
  by_cases hcount : count ≤ xs.length
  · refine .inr ⟨_, _, grow_ofSlots_eq_ok_iff.2 (.inl ⟨hcount, rfl⟩),
      grow_ofSlots_eq_ok_iff.2 (.inl ⟨hlength ▸ hcount, rfl⟩), ?_⟩
    rw [outline_ofSlots, outline_ofSlots, h]
  · cases xs with
    | nil =>
      rw [List.map_eq_nil_iff.1 h.symm]
      rcases (ofSlots backend []).grow index count with e | c
      · exact .inl ⟨e, rfl, rfl⟩
      · exact .inr ⟨c, c, rfl, rfl, rfl⟩
    | cons x xs =>
      obtain ⟨y, ys, rfl, hy, hys⟩ := List.map_eq_cons_iff.1 h.symm
      have hfill (z : Slot) (zs : List Slot) : (fill count z (z :: zs)).map Slot.skeleton =
          fill count z.skeleton ((z :: zs).map Slot.skeleton) := by
        simp [fill]
      rw [Nat.not_le] at hcount
      refine .inr ⟨_, _, grow_ofSlots_eq_ok_iff.2 (.inr ⟨hcount, x, rfl, rfl⟩),
        grow_ofSlots_eq_ok_iff.2 (.inr ⟨hlength ▸ hcount, y, rfl, rfl⟩), ?_⟩
      rw [outline_ofSlots, outline_ofSlots, hfill, hfill, h, hy]

/-- Patched copies have nothing of the parameters and names that stood in the chunk. -/
theorem patchCopy_congr (hcovers : ∀ x ∈ xs, x.skeleton.IsCovered)
    (h : xs.map Slot.skeleton = ys.map Slot.skeleton) (index : ℕ) (ps : List Program) :
    (ofSlots backend xs).patchCopy index ps = (ofSlots backend ys).patchCopy index ps := by
  have hlength := Slot.length_eq_of_skeletons h
  rw [patchCopy_eq_map, patchCopy_eq_map, patchInPlace_ofSlots, patchInPlace_ofSlots, ← hlength,
    ← checkSlots_congr (Slot.map_shapes_eq_of_skeletons h), ← Slot.map_mapping_eq_of_skeletons h,
    ← Slot.map_key_eq_of_skeletons h]
  split
  · rfl
  · next hcount =>
    rcases hcheck : checkSlots 0 (xs.map Slot.subJob) (xs.map Slot.mapping) (xs.map Slot.key) ps
      with e | u
    · rfl
    · have hle := Nat.not_lt.1 hcount
      have haccepts := checkSlots_eq_ok_iff.1 hcheck
      simp only [Except.map, ofSlots, ← List.map_take, Slot.take_writeAll hle,
        Slot.take_writeAll (hlength ▸ hle), Slot.zipWith_write_congr hcovers haccepts h]

end Chunk

/-! ## Lists of chunks -/

/-- The outlines of chunks, with the same gaps. -/
def outlines (chunks : List (Option Chunk)) : List (Option Outline) :=
  chunks.map (Option.map Chunk.outline)

theorem Store.outlines_place {index : ℕ} {c d : Chunk} {chunks others : List (Option Chunk)}
    (hc : c.outline = d.outline) (h : outlines chunks = outlines others) :
    outlines (place index c chunks) = outlines (place index d others) := by
  have hlength : chunks.length = others.length := by simpa [outlines] using congrArg List.length h
  have houtlines : chunks.map (Option.map Chunk.outline) =
      others.map (Option.map Chunk.outline) := h
  rw [outlines, outlines, place, place, List.map_set, List.map_set, List.map_append,
    List.map_append, List.map_replicate, List.map_replicate, houtlines, hlength, Option.map_some,
    Option.map_some, hc]

/-- Placing a chunk of the same outline changes no outline. -/
theorem Store.outlines_place_self {s : Store} {index : ℕ} {c d : Chunk}
    (hc : s.chunk? index = some c) (h : d.outline = c.outline) :
    outlines (place index d s.chunks) = outlines s.chunks := by
  obtain ⟨hindex, hget⟩ := List.getElem?_eq_some_iff.1 (getElem?_of_chunk? hc)
  have hplace : place index c s.chunks = s.chunks := by
    rw [place_eq_set hindex, ← hget, List.set_getElem_self]
  rw [outlines_place h rfl, hplace]

/-! ## Stored chunks -/

namespace Snapshot

/-- The outlines of the chunks that bytes are the stored form of. -/
def outlinesOf (bytes : Bytes) : Except StorageError (List (Option Outline)) :=
  (decode bytes).map fun s => outlines s.chunks

open Classical in
/-- The outlines of stored chunks are those of the chunks, whenever they were stored. -/
theorem outlinesOf_encode {chunks : List (Option Chunk)}
    (h : AllSound (fun _ => True) Skeleton.IsCovered chunks) {now : Instant} (hnow : now.IsValid) :
    outlinesOf (encode now chunks) =
      if ∀ o, some o ∈ outlines chunks → ∀ x ∈ o.slots, x.mapping.FitsWords then
        .ok (outlines chunks)
      else .error .decode := by
  have hfits : (∀ o, some o ∈ outlines chunks → ∀ x ∈ o.slots, x.mapping.FitsWords) ↔
      ∀ c, some c ∈ chunks → c.FitsWords := by
    have hchunk (c : Chunk) (hc : some c ∈ chunks) :
        c.FitsWords ↔ ∀ x ∈ c.outline.slots, x.mapping.FitsWords := by
      obtain ⟨backend, xs, rfl, -, -⟩ := (h c hc).exists_slots
      rw [Chunk.outline_ofSlots, Chunk.FitsWords, Chunk.ofSlots, List.forall_mem_map,
        List.forall_mem_map]
      rfl
    constructor
    · intro hall c hc
      exact (hchunk c hc).2 (hall c.outline (List.mem_map_of_mem hc))
    · intro hall o ho
      obtain ⟨oc, hoc, heq⟩ := List.mem_map.1 ho
      obtain ⟨c, rfl, rfl⟩ := Option.map_eq_some_iff.1 heq
      exact (hchunk c hoc).1 (hall c hoc)
  have hverify : ∀ c, some c ∈ chunks → c.verify = .ok () := fun c hc =>
    Chunk.verify_eq_ok_iff.2 ⟨(h c hc).whole, (h c hc).slots⟩
  rw [outlinesOf, decode_encode_eq hverify, Instant.ofText?_textZulu hnow]
  rcases hread : chunks.mapM rereadSlot? with _ | read
  · rw [if_neg fun hall => ?_]
    · rfl
    · rw [mapM_rereadSlot?_eq_some_iff.2 ⟨hfits.1 hall, rfl⟩] at hread
      cases hread
  · rw [if_pos (hfits.2 (mapM_rereadSlot?_eq_some_iff.1 hread).1)]
    refine congrArg Except.ok (map_eq_of_mapM_eq_some (fun oc od hslot => ?_) hread)
    rcases oc with _ | c
    · rw [← Option.some.inj hslot]
    · rw [rereadSlot?, Option.map_eq_some_iff] at hslot
      obtain ⟨d, hd, rfl⟩ := hslot
      exact congrArg some (Chunk.outline_reread? hd)

/-- One choice of bytes for all bytes that are the stored form of the same outlines. -/
noncomputable def standIn (bytes : Bytes) : Bytes := Function.invFun outlinesOf (outlinesOf bytes)

theorem outlinesOf_standIn (bytes : Bytes) : outlinesOf (standIn bytes) = outlinesOf bytes :=
  Function.invFun_eq ⟨bytes, rfl⟩

theorem standIn_congr {bytes others : Bytes} (h : outlinesOf bytes = outlinesOf others) :
    standIn bytes = standIn others := by
  rw [standIn, h, standIn]

end Snapshot

namespace Backing

theorem outlines_chunks (b : Backing) : outlines b.chunks =
    match b.load with
    | .ok (some bytes) => (Snapshot.outlinesOf bytes).toOption.getD []
    | _ => [] := by
  unfold chunks
  rcases b.load with e | _ | bytes
  · rfl
  · rfl
  · simp only [Snapshot.outlinesOf]
    rcases Snapshot.decode bytes with e | s <;> rfl

/-- Stand-ins for the bytes of a backing keep the outlines that it holds. -/
theorem outlines_chunks_map (b : Backing) :
    outlines (b.map Snapshot.standIn).chunks = outlines b.chunks := by
  rw [outlines_chunks, outlines_chunks, load_map]
  rcases b.load with e | _ | bytes
  · rfl
  · rfl
  · show (Snapshot.outlinesOf (Snapshot.standIn bytes)).toOption.getD [] = _
    rw [Snapshot.outlinesOf_standIn]

end Backing

end CircuitCache
