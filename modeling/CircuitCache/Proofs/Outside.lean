import Mathlib
import CircuitCache.Proofs.Integrity

/-!
# Bytes from outside

The bytes that a store is opened on, that are put in its backing or that it loads are verified, and
nothing more.  So a property that lasts, and that inserted jobs have, holds of all chunks of all runs
exactly when it holds of those that come from outside (`Store.forall_chunk?_run_iff`).  One such
property is to have no more slots than the limit.
-/

namespace CircuitCache

/-- The bytes that a call brings in from outside. -/
def Action.bytes? : Action → Option Bytes
  | loadBytes bytes => some bytes
  | overwrite bytes => some bytes
  | _ => none

/-- The bytes come from outside: the backing holds them at first, or a call brings them in. -/
def FromOutside (backing : Backing) (calls : List (Instant × Action)) (bytes : Bytes) : Prop :=
  bytes ∈ backing.held ∨ ∃ call ∈ calls, bytes ∈ call.2.bytes?

/-- Bytes of the kind `S` are all that comes in from outside. -/
def OnlyFromOutside (S : Bytes → Prop) (backing : Backing) (calls : List (Instant × Action)) : Prop :=
  ∀ bytes, FromOutside backing calls bytes → S bytes

theorem onlyFromOutside_loadBytes {S : Bytes → Prop} {bytes : Bytes} (h : S bytes)
    (now : Instant) : OnlyFromOutside S .none [(now, .loadBytes bytes)] := by
  rintro other (hheld | ⟨call, hcall, hother⟩)
  · cases hheld
  · rw [List.mem_singleton.1 hcall] at hother
    exact Option.some.inj hother ▸ h

namespace Action

variable {limit : ℕ} {C : Chunk → Prop}

/-- A call keeps the property when the bytes it brings in do, and every inserted job has it. -/
theorem brings_of_bytes? {a : Action} (hbytes : ∀ bytes ∈ a.bytes?, Stores C bytes)
    (hjob : ∀ job ps, List.length ps ≤ limit → ∀ c, Store.compiled job ps = .ok c → C c) :
    a.Brings limit C := by
  cases a with
  | insert index job ps => exact hjob job ps
  | loadBytes bytes => exact hbytes bytes rfl
  | overwrite bytes => exact hbytes bytes rfl
  | lookup | ensureCapacity | patch | patchCopy | patchInPlace | clear | reload | restart | cycle =>
    trivial

end Action

namespace Store

variable {C : Chunk → Prop} {S : Bytes → Prop}

/-- A property that lasts and that inserted jobs have is lost by bytes from outside alone. -/
theorem keeps_run_of_fromOutside {config : Config} {backing : Backing}
    {calls : List (Instant × Action)} (hC : Chunk.Lasts config.submissionSizeLimit C)
    (hjob : ∀ job ps, List.length ps ≤ config.submissionSizeLimit →
      ∀ c, compiled job ps = .ok c → C c)
    (hbytes : ∀ bytes, FromOutside backing calls bytes → Stores C bytes) :
    ((opened config backing).run calls).Keeps config.submissionSizeLimit C := by
  have hopened : (opened config backing).Keeps config.submissionSizeLimit C :=
    keeps_opened fun bytes hheld => hbytes bytes (.inl hheld)
  refine hopened.run hC fun call hcall => ?_
  exact Action.brings_of_bytes? (fun bytes h => hbytes bytes (.inr ⟨call, hcall, h⟩)) hjob

/-- Loading bytes puts the chunks that they store where they were. -/
theorem chunk?_run_loadBytes {bytes : Bytes} {snapshot : Snapshot}
    (hdecode : Snapshot.decode bytes = .ok snapshot) {c : Chunk} (hc : some c ∈ snapshot.chunks)
    (config : Config) (now : Instant) :
    ∃ index, ((opened config .none).run [(now, .loadBytes bytes)]).chunk? index = some c := by
  obtain ⟨index, hindex⟩ := List.mem_iff_getElem?.1 hc
  refine ⟨index, ?_⟩
  rw [run, List.foldl_cons, List.foldl_nil]
  simp only [act, loadBytes, hdecode, Prod.map_snd, id_eq]
  rw [chunk?, hindex]
  rfl

/-- All chunks of all runs have such a property exactly when those that come from outside do. -/
theorem forall_chunk?_run_iff {config : Config} (hC : Chunk.Lasts config.submissionSizeLimit C)
    (hjob : ∀ job ps, List.length ps ≤ config.submissionSizeLimit →
      ∀ c, compiled job ps = .ok c → C c) :
    (∀ backing calls, OnlyFromOutside S backing calls → ∀ index c,
      ((opened config backing).run calls).chunk? index = some c → C c) ↔
    ∀ bytes, S bytes → Stores C bytes := by
  constructor
  · intro hruns bytes hbytes snapshot hdecode c hc
    obtain ⟨index, hindex⟩ := chunk?_run_loadBytes hdecode hc config snapshot.savedAt
    exact hruns _ _ (onlyFromOutside_loadBytes hbytes snapshot.savedAt) index c hindex
  · intro hbytes backing calls hcalls index c hc
    exact (keeps_run_of_fromOutside hC hjob fun bytes h => hbytes bytes (hcalls bytes h)).chunk? hc

end Store

/-! ## The limit -/

namespace Chunk

theorem slotCount_of_grow {c d : Chunk} {index count : ℕ} (h : c.grow index count = .ok d) :
    d.slotCount = max count c.slotCount := by
  unfold grow at h
  split at h
  · next hle =>
    rw [← Except.ok.inj h, max_eq_right hle]
  · split at h
    · rw [← Except.ok.inj h]
      exact length_fill count _ c.mappings
    · cases h

theorem slotCount_of_patchInPlace {c d : Chunk} {index : ℕ} {ps : List Program}
    (h : c.patchInPlace index ps = .ok d) : d.slotCount = c.slotCount := by
  obtain ⟨-, rfl⟩ := patchInPlace_eq_ok h
  rfl

theorem slotCount_of_reread? {c d : Chunk} (h : c.reread? = some d) :
    d.slotCount = c.slotCount := by
  obtain ⟨-, hmappings, -, -⟩ := eq_of_reread? h
  rw [slotCount, slotCount, hmappings]

/-- A chunk within the limit stays within it. -/
theorem lasts_slotCount_le (limit : ℕ) : Lasts limit fun c => c.slotCount ≤ limit where
  grow hc hcount hgrow := by
    rw [slotCount_of_grow hgrow]
    exact max_le hcount hc
  patch hc hpatch := by
    rw [slotCount_of_patchInPlace hpatch]
    exact hc
  reread hc hread := by
    rw [slotCount_of_reread? hread]
    exact hc

end Chunk

namespace Store

theorem slotCount_of_compiled {job : Job} {ps : List Program} {c : Chunk}
    (h : compiled job ps = .ok c) : c.slotCount = ps.length := by
  obtain ⟨hlength, xs, hxs, rfl⟩ := compiled_eq_ok_iff.1 h
  rw [Chunk.slotCount_ofSlots, ← hxs.length_eq, List.length_zip, ← hlength, min_self]

/-- Every chunk stays within the limit in every run exactly when no bytes from outside store a chunk
with more slots: neither inserting nor making room goes beyond the limit, and loading does not ask
for it. -/
theorem slotCount_le_limit_iff (config : Config) (S : Bytes → Prop) :
    (∀ backing calls, OnlyFromOutside S backing calls → ∀ index c,
      ((opened config backing).run calls).chunk? index = some c →
        c.slotCount ≤ config.submissionSizeLimit) ↔
    ∀ bytes, S bytes → Stores (fun c => c.slotCount ≤ config.submissionSizeLimit) bytes := by
  apply forall_chunk?_run_iff (Chunk.lasts_slotCount_le config.submissionSizeLimit)
  intro job ps hps c hcompiled
  rw [slotCount_of_compiled hcompiled]
  exact hps

end Store

namespace Example

/-- A store for one program at a time, over the bytes of a chunk with two slots. -/
theorem rotationChunk_exceeds_limit :
    let s := Store.opened { submissionSizeLimit := 1 }
      (.memory (some (Snapshot.encode noon [some rotationChunk])))
    s.chunk? 0 = some rotationChunk ∧
      ¬rotationChunk.slotCount ≤ s.config.submissionSizeLimit := by
  decide +kernel

end Example

end CircuitCache
