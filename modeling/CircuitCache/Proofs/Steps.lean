import Mathlib
import CircuitCache.Store.Run
import CircuitCache.Proofs.Slots

/-!
# What a call does

A call about one chunk either fails and leaves the store, or puts one chunk in place and counts
that.  There is one lemma for each such call, with everything that is known when it succeeds.
-/

namespace CircuitCache

namespace Store

/-- The store with a chunk that was compiled. -/
def inserted (s : Store) (index : ℕ) (c : Chunk) : Store :=
  { s with chunks := place index c s.chunks, counters.inserts := s.counters.inserts + 1 }

/-- The store with a chunk that was patched. -/
def repatched (s : Store) (index : ℕ) (c : Chunk) : Store :=
  ({ s with chunks := place index c s.chunks } : Store).countPatch

variable (s : Store)

theorem checkLimit_cases (index requested : ℕ) :
    (∃ e, s.checkLimit index requested = .error e) ∨
      requested ≤ s.config.submissionSizeLimit ∧ s.checkLimit index requested = .ok () := by
  unfold checkLimit
  split
  · exact .inl ⟨_, rfl⟩
  · next h => exact .inr ⟨Nat.not_lt.1 h, rfl⟩

theorem insert_cases (now : Instant) (index : ℕ) (job : Job) (ps : List Program) :
    (∃ e, s.insert now index job ps = (.error e, s)) ∨
      ∃ c, ps.length ≤ s.config.submissionSizeLimit ∧ compiled job ps = .ok c ∧
        s.insert now index job ps = (.ok (), (s.inserted index c).persist now) := by
  unfold insert
  rcases s.checkLimit_cases index ps.length with ⟨e, h⟩ | ⟨hle, h⟩
  · rw [h]
    exact .inl ⟨e, rfl⟩
  · rw [h]
    rcases compiled job ps with e | c
    · exact .inl ⟨e, rfl⟩
    · exact .inr ⟨c, hle, rfl, rfl⟩

/-- Room is made from the chunk itself, or from chunk 0 if there is none. -/
theorem ensureCapacity_cases (index count : ℕ) :
    (∃ e, s.ensureCapacity index count = (.error e, s)) ∨
      s.ensureCapacity index count = (.ok (), s) ∨
      ∃ source template c, s.chunk? source = some template ∧
        count ≤ s.config.submissionSizeLimit ∧ template.grow index count = .ok c ∧
        s.ensureCapacity index count = (.ok (), s.reuse index c) := by
  unfold ensureCapacity
  rcases s.checkLimit_cases index count with ⟨e, h⟩ | ⟨hle, h⟩
  · rw [h]
    exact .inl ⟨e, rfl⟩
  · rw [h]
    rcases hc : s.chunk? index with _ | c
    · rcases s.config.reuseAcrossChunks with _ | _
      · exact .inl ⟨_, rfl⟩
      · rcases h0 : s.chunk? 0 with _ | template
        · exact .inl ⟨_, rfl⟩
        · rcases hgrow : template.grow index count with e | d
          · simp only [hgrow]
            exact .inl ⟨e, rfl⟩
          · simp only [hgrow]
            exact .inr (.inr ⟨0, template, d, h0, hle, hgrow, rfl⟩)
    · simp only
      split
      · exact .inr (.inl rfl)
      · split
        · exact .inl ⟨_, rfl⟩
        · rcases hgrow : c.grow index count with e | d
          · exact .inl ⟨e, rfl⟩
          · exact .inr (.inr ⟨index, c, d, hc, hle, hgrow, rfl⟩)

/-- Nothing has to be done where there are slots enough. -/
theorem ensureCapacity_of_le {index count : ℕ} {c : Chunk} (hc : s.chunk? index = some c)
    (hle : count ≤ c.slotCount) (hlimit : count ≤ s.config.submissionSizeLimit) :
    s.ensureCapacity index count = (.ok (), s) := by
  rw [ensureCapacity, checkLimit_of_le hlimit, hc]
  simp only [if_pos hle]

theorem patchCopy_cases (index : ℕ) (ps : List Program) :
    (∃ e, s.patchCopy index ps = (.error e, s)) ∨
      ∃ c subJobs, s.chunk? index = some c ∧ c.patchCopy index ps = .ok subJobs ∧
        s.patchCopy index ps = (.ok ⟨index, c.job.backend, subJobs, false⟩, s.countPatch) := by
  unfold patchCopy
  rcases s.chunk? index with _ | c
  · exact .inl ⟨_, rfl⟩
  · rcases hpatch : c.patchCopy index ps with e | subJobs
    · simp only [hpatch]
      exact .inl ⟨e, rfl⟩
    · simp only [hpatch]
      exact .inr ⟨c, subJobs, rfl, hpatch, rfl⟩

theorem patchInPlace_cases (index : ℕ) (ps : List Program) :
    (∃ e, s.patchInPlace index ps = (.error e, s)) ∨
      ∃ c d, s.chunk? index = some c ∧ c.patchInPlace index ps = .ok d ∧
        s.patchInPlace index ps =
          (.ok ⟨index, d.job.backend, d.job.subJobs.take ps.length, true⟩, s.repatched index d) := by
  unfold patchInPlace
  rcases s.chunk? index with _ | c
  · exact .inl ⟨_, rfl⟩
  · rcases hpatch : c.patchInPlace index ps with e | d
    · simp only [hpatch]
      exact .inl ⟨e, rfl⟩
    · simp only [hpatch]
      exact .inr ⟨c, d, rfl, hpatch, rfl⟩

/-- Both ways of patching give the same error, or the same job up to who owns it. -/
theorem map_owned_patchInPlace (index : ℕ) (ps : List Program) :
    (s.patchInPlace index ps).1.map Patched.owned = (s.patchCopy index ps).1 := by
  unfold patchInPlace patchCopy
  rcases s.chunk? index with _ | c
  · rfl
  · simp only [Chunk.patchCopy_eq_map]
    rcases hpatch : c.patchInPlace index ps with e | d
    · rfl
    · obtain ⟨-, rfl⟩ := Chunk.patchInPlace_eq_ok hpatch
      rfl

theorem patch_cases (index : ℕ) (ps : List Program) :
    s.patch index ps = s.patchCopy index ps ∨ s.patch index ps = s.patchInPlace index ps := by
  unfold patch
  split
  · exact .inl rfl
  · exact .inr rfl

theorem loadBytes_cases (bytes : Bytes) :
    (∃ e, Snapshot.decode bytes = .error e ∧ s.loadBytes bytes = (.error e, s)) ∨
      ∃ snapshot, Snapshot.decode bytes = .ok snapshot ∧
        s.loadBytes bytes = (.ok (), { s with chunks := snapshot.chunks }) := by
  unfold loadBytes
  rcases Snapshot.decode bytes with e | snapshot
  · exact .inl ⟨e, rfl, rfl⟩
  · exact .inr ⟨snapshot, rfl, rfl⟩

/-! ## What calls leave -/

/-- Chunks and counters may differ, but not the configuration and the backing. -/
structure SameSetting (s t : Store) : Prop where
  config : t.config = s.config
  backing : t.backing = s.backing

theorem SameSetting.refl : s.SameSetting s := ⟨rfl, rfl⟩

theorem sameSetting_lookup (index : ℕ) (ps : List Program) :
    s.SameSetting (s.lookup index ps).2 := by
  unfold lookup
  split
  · exact ⟨rfl, rfl⟩
  · exact ⟨rfl, rfl⟩

theorem sameSetting_ensureCapacity (index count : ℕ) :
    s.SameSetting (s.ensureCapacity index count).2 := by
  rcases s.ensureCapacity_cases index count with ⟨e, heq⟩ | heq | ⟨_, _, c, -, -, -, heq⟩
  · rw [heq]
    exact .refl s
  · rw [heq]
    exact .refl s
  · rw [heq]
    exact ⟨rfl, rfl⟩

theorem sameSetting_patchCopy (index : ℕ) (ps : List Program) :
    s.SameSetting (s.patchCopy index ps).2 := by
  rcases s.patchCopy_cases index ps with ⟨e, heq⟩ | ⟨c, subJobs, -, -, heq⟩
  · rw [heq]
    exact .refl s
  · rw [heq]
    exact ⟨rfl, rfl⟩

theorem sameSetting_patchInPlace (index : ℕ) (ps : List Program) :
    s.SameSetting (s.patchInPlace index ps).2 := by
  rcases s.patchInPlace_cases index ps with ⟨e, heq⟩ | ⟨c, d, -, -, heq⟩
  · rw [heq]
    exact .refl s
  · rw [heq]
    exact ⟨rfl, rfl⟩

theorem sameSetting_patch (index : ℕ) (ps : List Program) :
    s.SameSetting (s.patch index ps).2 := by
  rcases s.patch_cases index ps with heq | heq
  · rw [heq]
    exact s.sameSetting_patchCopy index ps
  · rw [heq]
    exact s.sameSetting_patchInPlace index ps

theorem sameSetting_loadBytes (bytes : Bytes) : s.SameSetting (s.loadBytes bytes).2 := by
  rcases s.loadBytes_cases bytes with ⟨e, -, heq⟩ | ⟨snapshot, -, heq⟩
  · rw [heq]
    exact .refl s
  · rw [heq]
    exact ⟨rfl, rfl⟩

/-- An insert may write to the backing. -/
theorem config_insert (now : Instant) (index : ℕ) (job : Job) (ps : List Program) :
    (s.insert now index job ps).2.config = s.config := by
  rcases s.insert_cases now index job ps with ⟨e, heq⟩ | ⟨c, -, -, heq⟩
  · rw [heq]
  · rw [heq]
    rfl

end Store

end CircuitCache
