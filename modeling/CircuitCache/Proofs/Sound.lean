import Mathlib
import CircuitCache.Proofs.Lasting

/-!
# Properties that last

A property of backends and skeletons that all chunks have lasts through every run: growing copies
slots, patching keeps skeletons, and so does storing and reading again.  Only inserted jobs and bytes
from outside can bring in other chunks (`Action.Trusted`).
-/

namespace CircuitCache

variable {B : String → Prop} {Q : Skeleton → Prop}

/-! ## Chunks -/

namespace Chunk

/-- A whole chunk whose backend has the property `B`, and the skeletons of its slots `Q`. -/
structure Sound (B : String → Prop) (Q : Skeleton → Prop) (c : Chunk) : Prop where
  whole : c.IsWhole
  backend : B c.job.backend
  slots : ∀ x ∈ c.slots, Q x.skeleton

theorem sound_ofSlots_iff {backend : String} {xs : List Slot} :
    (ofSlots backend xs).Sound B Q ↔ B backend ∧ ∀ x ∈ xs, Q x.skeleton := by
  constructor
  · intro h
    exact ⟨h.backend, slots_ofSlots backend xs ▸ h.slots⟩
  · rintro ⟨hbackend, hxs⟩
    exact ⟨isWhole_ofSlots backend xs, hbackend, (slots_ofSlots backend xs).symm ▸ hxs⟩

/-- A sound chunk is made of slots. -/
theorem Sound.exists_slots {c : Chunk} (h : c.Sound B Q) :
    ∃ backend xs, c = ofSlots backend xs ∧ B backend ∧ ∀ x ∈ xs, Q x.skeleton :=
  ⟨c.job.backend, c.slots, h.whole.ofSlots_slots.symm, h.backend, h.slots⟩

/-- The chunks that pass verification are sound for coverage. -/
theorem sound_of_verify {c : Chunk} (h : c.verify = .ok ()) :
    c.Sound (fun _ => True) fun x => x.mapping.Covers x.shapes := by
  obtain ⟨hwhole, hslots⟩ := verify_eq_ok_iff.1 h
  exact ⟨hwhole, trivial, hslots⟩

theorem Sound.grow {c d : Chunk} {index count : Nat} (h : c.Sound B Q)
    (hgrow : c.grow index count = .ok d) : d.Sound B Q := by
  obtain ⟨backend, xs, rfl, hbackend, hxs⟩ := h.exists_slots
  obtain ⟨-, rfl⟩ | ⟨-, x, hx, rfl⟩ := grow_ofSlots_eq_ok_iff.1 hgrow
  · exact h
  · exact sound_ofSlots_iff.2
      ⟨hbackend, fun y hy => hxs y (mem_of_mem_fill (List.mem_of_mem_head? hx) hy)⟩

/-- Slots with the skeletons of sound slots are sound. -/
theorem forall_skeleton_of_map_eq {xs ys : List Slot}
    (h : xs.map Slot.skeleton = ys.map Slot.skeleton) (hys : ∀ y ∈ ys, Q y.skeleton) :
    ∀ x ∈ xs, Q x.skeleton := by
  rw [← List.forall_mem_map, ← h, List.forall_mem_map] at hys
  exact hys

/-- A patch leaves the skeletons of all slots. -/
theorem map_skeleton_slots_of_patchInPlace {c d : Chunk} (hc : c.IsWhole) {index : Nat}
    {ps : List Program} (hpatch : c.patchInPlace index ps = .ok d) :
    d.slots.map Slot.skeleton = c.slots.map Slot.skeleton := by
  rw [← hc.ofSlots_slots] at hpatch
  obtain ⟨-, -, rfl⟩ := patchInPlace_ofSlots_eq_ok_iff.1 hpatch
  rw [slots_ofSlots, Slot.map_skeleton_writeAll]

theorem Sound.patchInPlace {c d : Chunk} {index : Nat} {ps : List Program} (h : c.Sound B Q)
    (hpatch : c.patchInPlace index ps = .ok d) : d.Sound B Q := by
  have hskeletons := map_skeleton_slots_of_patchInPlace h.whole hpatch
  rw [← h.whole.ofSlots_slots] at hpatch
  obtain ⟨-, -, rfl⟩ := patchInPlace_ofSlots_eq_ok_iff.1 hpatch
  exact ⟨isWhole_ofSlots _ _, h.backend, forall_skeleton_of_map_eq hskeletons h.slots⟩

theorem map_skeleton_slots (c : Chunk) : c.slots.map Slot.skeleton =
    List.zipWith (fun (nsl : String × List Shape × Option String) (mk : Mapping × Key) =>
      ⟨nsl.2.1, nsl.2.2, mk.1, mk.2⟩)
      (c.job.subJobs.map fun s => (s.name, s.shapes, s.listing)) (c.mappings.zip c.keys) := by
  rw [slots, List.map_zipWith, List.zipWith_map_left]
  rfl

/-- Parameters may be read differently; nothing in a skeleton depends on them. -/
theorem map_skeleton_slots_of_reread? {c d : Chunk} (h : c.reread? = some d) :
    d.slots.map Slot.skeleton = c.slots.map Slot.skeleton := by
  obtain ⟨-, hmappings, hkeys, hsubJobs⟩ := eq_of_reread? h
  rw [map_skeleton_slots, map_skeleton_slots, hmappings, hkeys, hsubJobs]

theorem Sound.reread? {c d : Chunk} (h : c.Sound B Q) (hreread : c.reread? = some d) :
    d.Sound B Q := by
  obtain ⟨hbackend, hmappings, hkeys, hsubJobs⟩ := eq_of_reread? hreread
  have hlength : d.job.subJobs.length = c.job.subJobs.length := by
    simpa using congrArg List.length hsubJobs
  refine ⟨⟨?_, ?_⟩, hbackend ▸ h.backend,
    forall_skeleton_of_map_eq (map_skeleton_slots_of_reread? hreread) h.slots⟩
  · rw [hlength, hmappings, h.whole.subJobs]
  · rw [hkeys, hmappings, h.whole.keys]

end Chunk

/-- A chunk is sound when the slots that its programs compile to are. -/
theorem sound_compiled {job : Job} {ps : List Program} {c : Chunk} (hbackend : B job.backend)
    (hslots : ∀ p ∈ ps, ∀ s ∈ job.subJobs, ∀ x, Slot.IsCompiled p s x → Q x.skeleton)
    (h : Store.compiled job ps = .ok c) : c.Sound B Q := by
  obtain ⟨-, xs, hxs, rfl⟩ := Store.compiled_eq_ok_iff.1 h
  refine Chunk.sound_ofSlots_iff.2 ⟨hbackend, fun x hx => ?_⟩
  obtain ⟨i, hi, rfl⟩ := List.getElem_of_mem hx
  have hi' : i < (ps.zip job.subJobs).length := hxs.length_eq ▸ hi
  have hmem := List.of_mem_zip (List.get_mem (ps.zip job.subJobs) ⟨i, hi'⟩)
  exact hslots _ hmem.1 _ hmem.2 _ (hxs.get hi' hi)

/-! ## Chunks of a store and stored bytes -/

/-- Soundness lasts, to whatever number of slots a chunk grows. -/
theorem Chunk.lasts_sound (limit : ℕ) : Chunk.Lasts limit (Chunk.Sound B Q) where
  grow h _ hgrow := h.grow hgrow
  patch h hpatch := h.patchInPlace hpatch
  reread h hreread := h.reread? hreread

/-- Every chunk that is present is sound. -/
def AllSound (B : String → Prop) (Q : Skeleton → Prop) (chunks : List (Option Chunk)) : Prop :=
  ∀ c, some c ∈ chunks → c.Sound B Q

/-- Where the bytes can be decoded at all, the chunks are sound. -/
def SoundBytes (B : String → Prop) (Q : Skeleton → Prop) (bytes : Bytes) : Prop :=
  ∀ s, Snapshot.decode bytes = .ok s → AllSound B Q s.chunks

theorem AllSound.place {chunks : List (Option Chunk)} (h : AllSound B Q chunks) {c : Chunk}
    (hc : c.Sound B Q) (index : Nat) : AllSound B Q (Store.place index c chunks) :=
  Throughout.place h hc index

/-- Whatever is decoded has been verified. -/
theorem soundBytes_covers (bytes : Bytes) :
    SoundBytes (fun _ => True) (fun x => x.mapping.Covers x.shapes) bytes :=
  fun _ hs c hc => Chunk.sound_of_verify (Snapshot.verify_of_decode hs c hc)

/-! ## Stores -/

namespace Store

/-- The chunks of the store are sound, and so are those its backing holds. -/
structure Holds (B : String → Prop) (Q : Skeleton → Prop) (s : Store) : Prop where
  chunks : AllSound B Q s.chunks
  held : ∀ bytes ∈ s.backing.held, SoundBytes B Q bytes

theorem Keeps.holds {limit : ℕ} {s : Store} (h : s.Keeps limit (Chunk.Sound B Q)) :
    s.Holds B Q := ⟨h.chunks, h.held⟩

theorem holds_opened {config : Config} {backing : Backing}
    (h : ∀ bytes ∈ backing.held, SoundBytes B Q bytes) : (opened config backing).Holds B Q :=
  (keeps_opened h).holds

namespace Holds

variable {s : Store} (h : s.Holds B Q)
include h

theorem keeps : s.Keeps s.config.submissionSizeLimit (Chunk.Sound B Q) := ⟨rfl, h.chunks, h.held⟩

theorem chunk? {index : Nat} {c : Chunk} (hc : s.chunk? index = some c) : c.Sound B Q :=
  h.keeps.chunk? hc

theorem toBytes (now : Instant) : SoundBytes B Q (s.toBytes now) :=
  h.keeps.chunks.encode (Chunk.lasts_sound s.config.submissionSizeLimit) now

theorem reload : s.reload.Holds B Q := h.keeps.reload.holds

theorem restart : s.restart.Holds B Q := h.keeps.restart.holds

theorem clear : s.clear.Holds B Q := h.keeps.clear.holds

theorem lookup (index : Nat) (ps : List Program) : (s.lookup index ps).2.Holds B Q :=
  (h.keeps.lookup index ps).holds

theorem insert {job : Job} {ps : List Program} (hjob : ∀ c, compiled job ps = .ok c → c.Sound B Q)
    (now : Instant) (index : Nat) : (s.insert now index job ps).2.Holds B Q :=
  (h.keeps.insert (Chunk.lasts_sound _) (fun _ => hjob) now index).holds

theorem ensureCapacity (index count : Nat) : (s.ensureCapacity index count).2.Holds B Q :=
  (h.keeps.ensureCapacity (Chunk.lasts_sound _) index count).holds

theorem patch (index : Nat) (ps : List Program) : (s.patch index ps).2.Holds B Q :=
  (h.keeps.patch (Chunk.lasts_sound _) index ps).holds

end Holds

end Store

/-! ## Runs -/

/-- A call brings in nothing but what is sound: an inserted job, or bytes from outside. -/
def Action.Trusted (B : String → Prop) (Q : Skeleton → Prop) : Action → Prop
  | insert _ job ps => ∀ c, Store.compiled job ps = .ok c → c.Sound B Q
  | loadBytes bytes => SoundBytes B Q bytes
  | overwrite bytes => SoundBytes B Q bytes
  | _ => True

theorem Action.Trusted.brings {a : Action} (h : a.Trusted B Q) (limit : ℕ) :
    a.Brings limit (Chunk.Sound B Q) := by
  cases a with
  | insert index job ps => exact fun _ => h
  | loadBytes bytes => exact h
  | overwrite bytes => exact h
  | lookup | ensureCapacity | patch | patchCopy | patchInPlace | clear | reload | restart | cycle =>
    trivial

namespace Store

/-- One call keeps a store sound. -/
theorem Holds.act {s : Store} (h : s.Holds B Q) {a : Action} (ha : a.Trusted B Q) (now : Instant) :
    (s.act now a).2.Holds B Q :=
  (h.keeps.act (Chunk.lasts_sound _) (ha.brings _) now).holds

/-- A run of such calls keeps a store sound. -/
theorem Holds.run {s : Store} (h : s.Holds B Q) {calls : List (Instant × Action)}
    (hcalls : ∀ call ∈ calls, call.2.Trusted B Q) : (s.run calls).Holds B Q :=
  (h.keeps.run (Chunk.lasts_sound _) fun call hcall => (hcalls call hcall).brings _).holds

end Store

end CircuitCache
