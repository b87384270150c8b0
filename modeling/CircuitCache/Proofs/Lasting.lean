import Mathlib
import CircuitCache.Proofs.Backed
import CircuitCache.Proofs.Steps
import CircuitCache.Proofs.Stored

/-!
# What lasts through runs

A property of chunks lasts when growing, patching, and storing and reading again keep it
(`Chunk.Lasts`).  Then all chunks of a store keep it through every call, and so do those that the
backing holds.  Only inserted jobs and bytes from outside can bring in chunks without it
(`Action.Brings`).
-/

namespace CircuitCache

variable {limit : ℕ} {C : Chunk → Prop}

/-- Every chunk that is present has the property. -/
def Throughout (C : Chunk → Prop) (chunks : List (Option Chunk)) : Prop :=
  ∀ c, some c ∈ chunks → C c

/-- Where the bytes can be decoded at all, every chunk has the property. -/
def Stores (C : Chunk → Prop) (bytes : Bytes) : Prop :=
  ∀ s, Snapshot.decode bytes = .ok s → Throughout C s.chunks

/-- A chunk keeps the property when it grows to a number of slots within the limit, is patched, or is
stored and read again. -/
structure Chunk.Lasts (limit : ℕ) (C : Chunk → Prop) : Prop where
  grow : ∀ {c d index count}, C c → count ≤ limit → c.grow index count = .ok d → C d
  patch : ∀ {c d : Chunk} {index ps}, C c → c.patchInPlace index ps = .ok d → C d
  reread : ∀ {c d}, C c → c.reread? = some d → C d

theorem Throughout.place {chunks : List (Option Chunk)} (h : Throughout C chunks) {c : Chunk}
    (hc : C c) (index : ℕ) : Throughout C (Store.place index c chunks) := by
  intro d hd
  rcases List.mem_or_eq_of_mem_set hd with hd | hd
  · rcases List.mem_append.1 hd with hd | hd
    · exact h d hd
    · exact absurd (List.eq_of_mem_replicate hd) (by simp)
  · rw [Option.some.inj hd]
    exact hc

/-- The stored form of chunks with the property decodes to chunks with the property. -/
theorem Throughout.encode {chunks : List (Option Chunk)} (h : Throughout C chunks)
    (hC : Chunk.Lasts limit C) (now : Instant) : Stores C (Snapshot.encode now chunks) := by
  intro s hs d hd
  obtain ⟨c, hc, hread⟩ := Snapshot.exists_reread?_of_mem (Snapshot.decode_encode hs) hd
  exact hC.reread (h c hc) hread

namespace Store

/-- The chunks of a store with this limit have the property, and so have those its backing holds. -/
structure Keeps (limit : ℕ) (C : Chunk → Prop) (s : Store) : Prop where
  limit : s.config.submissionSizeLimit = limit
  chunks : Throughout C s.chunks
  held : ∀ bytes ∈ s.backing.held, Stores C bytes

theorem mem_of_chunk?_eq_some {s : Store} {index : ℕ} {c : Chunk}
    (h : s.chunk? index = some c) : some c ∈ s.chunks :=
  List.mem_of_getElem? (getElem?_of_chunk? h)

/-- The chunks that a backing holds have the property when its bytes store no others. -/
theorem throughout_chunks {b : Backing} (h : ∀ bytes ∈ b.held, Stores C bytes) :
    Throughout C b.chunks := by
  unfold Backing.chunks
  split
  · next bytes hload =>
    have hbytes := h bytes (Backing.held_of_load hload)
    split
    · next s hs => exact hbytes s hs
    · exact fun c hc => absurd hc List.not_mem_nil
  · exact fun c hc => absurd hc List.not_mem_nil

theorem keeps_opened {config : Config} {backing : Backing}
    (h : ∀ bytes ∈ backing.held, Stores C bytes) :
    (opened config backing).Keeps config.submissionSizeLimit C :=
  ⟨rfl, throughout_chunks h, h⟩

namespace Keeps

variable {s : Store} (h : s.Keeps limit C)
include h

theorem chunk? {index : ℕ} {c : Chunk} (hc : s.chunk? index = some c) : C c :=
  h.chunks c (mem_of_chunk?_eq_some hc)

theorem reload : s.reload.Keeps limit C := ⟨h.limit, throughout_chunks h.held, h.held⟩

theorem restart : s.restart.Keeps limit C := ⟨h.limit, throughout_chunks h.held, h.held⟩

theorem clear : s.clear.Keeps limit C := ⟨h.limit, fun _ hc => absurd hc List.not_mem_nil, h.held⟩

/-- Bytes that are saved are held, or those before are. -/
theorem save {bytes : Bytes} (hbytes : Stores C bytes) :
    ({ s with backing := (s.backing.save bytes).2 } : Store).Keeps limit C := by
  refine ⟨h.limit, h.chunks, fun held hheld => ?_⟩
  rcases s.backing.held_save bytes with hsave | hsave
  · rw [hsave, Option.mem_some_iff] at hheld
    exact hheld ▸ hbytes
  · exact h.held held (hsave ▸ hheld)

theorem overwrite {bytes : Bytes} (hbytes : Stores C bytes) :
    (s.overwrite bytes).2.Keeps limit C := by
  rw [Store.overwrite]
  exact h.save hbytes

theorem loadBytes {bytes : Bytes} (hbytes : Stores C bytes) :
    (s.loadBytes bytes).2.Keeps limit C := by
  rcases s.loadBytes_cases bytes with ⟨e, -, heq⟩ | ⟨snapshot, hdecode, heq⟩
  · rw [heq]
    exact h
  · rw [heq]
    exact ⟨h.limit, hbytes snapshot hdecode, h.held⟩

theorem lookup (index : ℕ) (ps : List Program) : (s.lookup index ps).2.Keeps limit C := by
  unfold Store.lookup
  split <;> exact ⟨h.limit, h.chunks, h.held⟩

theorem countPatch : s.countPatch.Keeps limit C := ⟨h.limit, h.chunks, h.held⟩

theorem insert (hC : Chunk.Lasts limit C) {job : Job} {ps : List Program}
    (hjob : ps.length ≤ limit → ∀ c, compiled job ps = .ok c → C c) (now : Instant) (index : ℕ) :
    (s.insert now index job ps).2.Keeps limit C := by
  rcases s.insert_cases now index job ps with ⟨e, heq⟩ | ⟨c, hle, hc, heq⟩
  · rw [heq]
    exact h
  · rw [heq]
    -- The chunk stays whether or not the bytes could be saved.
    have hplaced : (s.inserted index c).Keeps limit C :=
      ⟨h.limit, h.chunks.place (hjob (h.limit ▸ hle) c hc) index, h.held⟩
    exact hplaced.save (hplaced.chunks.encode hC now)

theorem ensureCapacity (hC : Chunk.Lasts limit C) (index count : ℕ) :
    (s.ensureCapacity index count).2.Keeps limit C := by
  rcases s.ensureCapacity_cases index count with
    ⟨e, heq⟩ | heq | ⟨source, template, c, htemplate, hle, hgrow, heq⟩
  · rw [heq]
    exact h
  · rw [heq]
    exact h
  · rw [heq]
    have hc : C c := hC.grow (h.chunk? htemplate) (h.limit ▸ hle) hgrow
    exact ⟨h.limit, h.chunks.place hc index, h.held⟩

theorem patchCopy (index : ℕ) (ps : List Program) : (s.patchCopy index ps).2.Keeps limit C := by
  rcases s.patchCopy_cases index ps with ⟨e, heq⟩ | ⟨c, subJobs, -, -, heq⟩
  · rw [heq]
    exact h
  · rw [heq]
    exact h.countPatch

theorem patchInPlace (hC : Chunk.Lasts limit C) (index : ℕ) (ps : List Program) :
    (s.patchInPlace index ps).2.Keeps limit C := by
  rcases s.patchInPlace_cases index ps with ⟨e, heq⟩ | ⟨c, d, hc, hpatch, heq⟩
  · rw [heq]
    exact h
  · rw [heq]
    exact ⟨h.limit, h.chunks.place (hC.patch (h.chunk? hc) hpatch) index, h.held⟩

theorem patch (hC : Chunk.Lasts limit C) (index : ℕ) (ps : List Program) :
    (s.patch index ps).2.Keeps limit C := by
  rcases s.patch_cases index ps with heq | heq
  · rw [heq]
    exact h.patchCopy index ps
  · rw [heq]
    exact h.patchInPlace hC index ps

end Keeps

end Store

/-! ## Runs -/

/-- Whatever a call brings in has the property: an inserted job that the store accepts, or bytes from
outside. -/
def Action.Brings (limit : ℕ) (C : Chunk → Prop) : Action → Prop
  | insert _ job ps => ps.length ≤ limit → ∀ c, Store.compiled job ps = .ok c → C c
  | loadBytes bytes => Stores C bytes
  | overwrite bytes => Stores C bytes
  | _ => True

namespace Store

/-- One call keeps the property. -/
theorem Keeps.act {s : Store} (h : s.Keeps limit C) (hC : Chunk.Lasts limit C) {a : Action}
    (ha : a.Brings limit C) (now : Instant) : (s.act now a).2.Keeps limit C := by
  cases a with
  | lookup index ps => exact h.lookup index ps
  | insert index job ps => exact h.insert hC ha now index
  | ensureCapacity index count => exact h.ensureCapacity hC index count
  | patch index ps => exact h.patch hC index ps
  | patchCopy index ps => exact h.patchCopy index ps
  | patchInPlace index ps => exact h.patchInPlace hC index ps
  | clear => exact h.clear
  | reload => exact h.reload
  | restart => exact h.restart
  | cycle =>
    rw [Store.act, Prod.map_snd]
    exact h.loadBytes (h.chunks.encode hC now)
  | loadBytes bytes => exact h.loadBytes ha
  | overwrite bytes => exact h.overwrite ha

/-- A run of such calls keeps the property. -/
theorem Keeps.run {s : Store} (h : s.Keeps limit C) (hC : Chunk.Lasts limit C)
    {calls : List (Instant × Action)} (hcalls : ∀ call ∈ calls, call.2.Brings limit C) :
    (s.run calls).Keeps limit C := by
  induction calls generalizing s with
  | nil => exact h
  | cons call rest ih =>
    rw [List.forall_mem_cons] at hcalls
    exact ih (h.act hC hcalls.1 call.1) hcalls.2

end Store

end CircuitCache
