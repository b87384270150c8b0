import Mathlib
import CircuitCache.Proofs.Integrity
import CircuitCache.Proofs.Outlines

/-!
# Safe and fast stores

A fast store leaves the parameters and names of the last batch in its chunks, copies them to other
chunks and saves them.  It is alike to a safe one in everything else (`Store.Alike`), and every call
gives the same result on stores that are alike, apart from who owns a patched job.
-/

namespace CircuitCache

/-- The result with a job of its own in place of one that was lent. -/
def Outcome.owned : Outcome → Outcome
  | patched result => patched (result.map Patched.owned)
  | o => o

/-- Every mapping in the store and in its backing covers its sub-job. -/
def Store.Covered (s : Store) : Prop := s.Holds (fun _ => True) Skeleton.IsCovered

namespace Store

theorem Covered.sound {s : Store} (hs : s.Covered) {index : ℕ} {c : Chunk}
    (hc : s.chunk? index = some c) : c.Sound (fun _ => True) Skeleton.IsCovered := hs.chunk? hc

theorem Covered.act {s : Store} (hs : s.Covered) (now : Instant) (a : Action) :
    (s.act now a).2.Covered := Holds.act hs (trusted_covers a) now

theorem covered_opened (config : Config) (backing : Backing) : (opened config backing).Covered :=
  holds_opened fun bytes _ => soundBytes_covers bytes

theorem Covered.run {s : Store} (hs : s.Covered) (calls : List (Instant × Action)) :
    (s.run calls).Covered := Holds.run hs fun call _ => trusted_covers call.2

/-- The stores differ in nothing but their mode and the parameters and names in their chunks. -/
structure Alike (s t : Store) : Prop where
  limit : s.config.submissionSizeLimit = t.config.submissionSizeLimit
  reuse : s.config.reuseAcrossChunks = t.config.reuseAcrossChunks
  chunks : outlines s.chunks = outlines t.chunks
  counters : s.counters = t.counters
  backing : s.backing.map Snapshot.standIn = t.backing.map Snapshot.standIn

namespace Alike

theorem refl (s : Store) : s.Alike s := ⟨rfl, rfl, rfl, rfl, rfl⟩

theorem symm {s t : Store} (h : s.Alike t) : t.Alike s :=
  ⟨h.limit.symm, h.reuse.symm, h.chunks.symm, h.counters.symm, h.backing.symm⟩

theorem trans {s t u : Store} (h : s.Alike t) (h' : t.Alike u) : s.Alike u :=
  ⟨h.limit.trans h'.limit, h.reuse.trans h'.reuse, h.chunks.trans h'.chunks,
    h.counters.trans h'.counters, h.backing.trans h'.backing⟩

end Alike

/-- The same result, and stores that are alike. -/
structure Agrees {α : Type} (r r' : α × Store) : Prop where
  result : r.1 = r'.1
  store : r.2.Alike r'.2

namespace Alike

variable {s t : Store} (h : s.Alike t)
include h

/-- Stores that are alike have chunks at the same indices, of slots with the same skeletons. -/
theorem chunk?_cases (hs : s.Covered) (ht : t.Covered) (index : ℕ) :
    s.chunk? index = none ∧ t.chunk? index = none ∨
    ∃ backend xs ys, s.chunk? index = some (.ofSlots backend xs) ∧
      t.chunk? index = some (.ofSlots backend ys) ∧ (∀ x ∈ xs, x.skeleton.IsCovered) ∧
      xs.map Slot.skeleton = ys.map Slot.skeleton := by
  have hjoin (u : Store) :
      (outlines u.chunks)[index]?.join = (u.chunk? index).map Chunk.outline := by
    rw [outlines, List.getElem?_map, chunk?]
    rcases u.chunks[index]? with _ | _ | c <;> rfl
  have hoption : (s.chunk? index).map Chunk.outline = (t.chunk? index).map Chunk.outline := by
    rw [← hjoin s, h.chunks, hjoin t]
  rcases hc : s.chunk? index with _ | c
  · rw [hc, Option.map_none, eq_comm, Option.map_eq_none_iff] at hoption
    exact .inl ⟨rfl, hoption⟩
  · rw [hc, Option.map_some, eq_comm, Option.map_eq_some_iff] at hoption
    obtain ⟨d, hd, houtline⟩ := hoption
    obtain ⟨backend, xs, rfl, -, hxs⟩ := (hs.sound hc).exists_slots
    obtain ⟨other, ys, rfl, -, -⟩ := (ht.sound hd).exists_slots
    rw [Chunk.outline_ofSlots, Chunk.outline_ofSlots, Outline.mk.injEq] at houtline
    obtain ⟨rfl, hskeletons⟩ := houtline
    exact .inr ⟨other, xs, ys, rfl, hd, hxs, hskeletons.symm⟩

theorem checkLimit (index requested : ℕ) :
    s.checkLimit index requested = t.checkLimit index requested := by
  rw [Store.checkLimit, Store.checkLimit, h.limit]

/-! ## Looking and loading -/

theorem lookup (hs : s.Covered) (ht : t.Covered) (index : ℕ) (ps : List Program) :
    Agrees (s.lookup index ps) (t.lookup index ps) := by
  have hserves : (s.chunk? index).any (·.serves ps) = (t.chunk? index).any (·.serves ps) := by
    rcases h.chunk?_cases hs ht index with ⟨hc, hd⟩ | ⟨backend, xs, ys, hc, hd, -, hskeletons⟩
    · rw [hc, hd]
    · rw [hc, hd]
      exact Chunk.serves_congr backend hskeletons ps
  unfold Store.lookup
  rw [hserves, h.counters]
  split
  · exact ⟨rfl, h.limit, h.reuse, h.chunks, rfl, h.backing⟩
  · exact ⟨rfl, h.limit, h.reuse, h.chunks, rfl, h.backing⟩

theorem clear : s.clear.Alike t.clear := ⟨h.limit, h.reuse, rfl, rfl, h.backing⟩

theorem reload : s.reload.Alike t.reload := by
  refine ⟨h.limit, h.reuse, ?_, h.counters, h.backing⟩
  show outlines s.backing.chunks = outlines t.backing.chunks
  rw [← Backing.outlines_chunks_map, h.backing, Backing.outlines_chunks_map]

theorem restart : s.restart.Alike t.restart :=
  reload (s := ⟨s.config, [], {}, s.backing⟩) (t := ⟨t.config, [], {}, t.backing⟩)
    ⟨h.limit, h.reuse, rfl, rfl, h.backing⟩

/-- Bytes of the same outlines load alike. -/
theorem loadBytes {bytes others : Bytes}
    (hbytes : Snapshot.outlinesOf bytes = Snapshot.outlinesOf others) :
    Agrees (s.loadBytes bytes) (t.loadBytes others) := by
  unfold Store.loadBytes
  rcases hdecode : Snapshot.decode bytes with e | snapshot <;>
    rcases hother : Snapshot.decode others with e' | other <;>
    simp only [Snapshot.outlinesOf, hdecode, hother, Except.map, Except.ok.injEq,
      Except.error.injEq, reduceCtorEq] at hbytes
  · exact ⟨congrArg Except.error hbytes, h⟩
  · exact ⟨rfl, h.limit, h.reuse, hbytes, h.counters, h.backing⟩

theorem toBytes (hs : s.Covered) (ht : t.Covered) {now later : Instant} (hnow : now.IsValid)
    (hlater : later.IsValid) :
    Snapshot.outlinesOf (s.toBytes now) = Snapshot.outlinesOf (t.toBytes later) := by
  rw [Store.toBytes, Store.toBytes, Snapshot.outlinesOf_encode hs.chunks hnow,
    Snapshot.outlinesOf_encode ht.chunks hlater, h.chunks]

/-! ## Saving -/

/-- Bytes of the same outlines are saved alike, and with the same result. -/
theorem save {bytes others : Bytes}
    (hbytes : Snapshot.outlinesOf bytes = Snapshot.outlinesOf others) :
    (s.backing.save bytes).1 = (t.backing.save others).1 ∧
      ({ s with backing := (s.backing.save bytes).2 } : Store).Alike
        { t with backing := (t.backing.save others).2 } := by
  have hsave := s.backing.save_map Snapshot.standIn bytes
  rw [h.backing, Snapshot.standIn_congr hbytes, t.backing.save_map Snapshot.standIn others] at hsave
  exact ⟨(congrArg Prod.fst hsave).symm, h.limit, h.reuse, h.chunks, h.counters,
    (congrArg Prod.snd hsave).symm⟩

theorem overwrite (bytes : Bytes) : Agrees (s.overwrite bytes) (t.overwrite bytes) :=
  ⟨(h.save rfl).1, (h.save rfl).2⟩

theorem insert (hs : s.Covered) (ht : t.Covered) {now later : Instant} (hnow : now.IsValid)
    (hlater : later.IsValid) (index : ℕ) (job : Job) (ps : List Program) :
    Agrees (s.insert now index job ps) (t.insert later index job ps) := by
  unfold Store.insert
  rw [h.checkLimit]
  rcases t.checkLimit index ps.length with e | u
  · exact ⟨rfl, h⟩
  · rcases hcompiled : compiled job ps with e | c
    · exact ⟨rfl, h⟩
    · -- Both stores place the same chunk, and save at their own times.
      have hc : c.Sound (fun _ => True) Skeleton.IsCovered :=
        trusted_covers (.insert index job ps) c hcompiled
      have hplaced : ({ s with
          chunks := place index c s.chunks
          counters.inserts := s.counters.inserts + 1 } : Store).Alike
          { t with
            chunks := place index c t.chunks
            counters.inserts := t.counters.inserts + 1 } :=
        ⟨h.limit, h.reuse, outlines_place rfl h.chunks, by simp only [h.counters], h.backing⟩
      have hbytes := hplaced.toBytes ⟨hs.chunks.place hc index, hs.held⟩
        ⟨ht.chunks.place hc index, ht.held⟩ hnow hlater
      exact ⟨rfl, (hplaced.save hbytes).2⟩

/-! ## Growing and patching -/

theorem placed {index : ℕ} {c d : Chunk} (hc : c.outline = d.outline) :
    (s.reuse index c).Alike (t.reuse index d) := by
  refine ⟨h.limit, h.reuse, outlines_place hc h.chunks, ?_, h.backing⟩
  rw [Store.reuse, Store.reuse, h.counters]

/-- Chunks that grow from slots of equal skeletons are put in place alike. -/
theorem grown {xs ys : List Slot} (hskeletons : xs.map Slot.skeleton = ys.map Slot.skeleton)
    (backend : String) (index count : ℕ) :
    Agrees
      (match (Chunk.ofSlots backend xs).grow index count with
        | .error e => ((.error e : Except CacheError Unit), s)
        | .ok c => (.ok (), s.reuse index c))
      (match (Chunk.ofSlots backend ys).grow index count with
        | .error e => (.error e, t)
        | .ok d => (.ok (), t.reuse index d)) := by
  rcases Chunk.grow_cases backend hskeletons index count with
    ⟨e, hr, hr'⟩ | ⟨c, d, hr, hr', houtline⟩
  · rw [hr, hr']
    exact ⟨rfl, h⟩
  · rw [hr, hr']
    exact ⟨rfl, h.placed houtline⟩

theorem ensureCapacity (hs : s.Covered) (ht : t.Covered) (index count : ℕ) :
    Agrees (s.ensureCapacity index count) (t.ensureCapacity index count) := by
  unfold Store.ensureCapacity
  rw [h.checkLimit, h.reuse]
  rcases t.checkLimit index count with e | u
  · exact ⟨rfl, h⟩
  · rcases h.chunk?_cases hs ht index with ⟨hc, hd⟩ | ⟨backend, xs, ys, hc, hd, -, hskeletons⟩
    · -- An absent chunk is filled from chunk 0, if that is allowed and there is one.
      simp only [hc, hd]
      cases t.config.reuseAcrossChunks with
      | false => exact ⟨rfl, h⟩
      | true =>
        rcases h.chunk?_cases hs ht 0 with ⟨hc, hd⟩ | ⟨backend, xs, ys, hc, hd, -, hskeletons⟩
        · simp only [hc, hd]
          exact ⟨rfl, h⟩
        · simp only [hc, hd]
          exact h.grown hskeletons backend index count
    · simp only [hc, hd, Chunk.slotCount_ofSlots, Slot.length_eq_of_skeletons hskeletons]
      split
      · exact ⟨rfl, h⟩
      · split
        · exact ⟨rfl, h⟩
        · exact h.grown hskeletons backend index count

theorem patchCopy (hs : s.Covered) (ht : t.Covered) (index : ℕ) (ps : List Program) :
    Agrees (s.patchCopy index ps) (t.patchCopy index ps) := by
  have hcounted : s.countPatch.Alike t.countPatch := by
    refine ⟨h.limit, h.reuse, h.chunks, ?_, h.backing⟩
    rw [countPatch, countPatch, h.counters]
  unfold Store.patchCopy
  rcases h.chunk?_cases hs ht index with ⟨hc, hd⟩ | ⟨backend, xs, ys, hc, hd, hxs, hskeletons⟩
  · simp only [hc, hd]
    exact ⟨rfl, h⟩
  · simp only [hc, hd, Chunk.patchCopy_congr backend hxs hskeletons]
    rcases (Chunk.ofSlots backend ys).patchCopy index ps with e | subJobs
    · exact ⟨rfl, h⟩
    · exact ⟨rfl, hcounted⟩

end Alike

/-- Patching in place gives the job that patching a copy gives, lent instead of owned, and leaves
the outlines. -/
theorem agrees_patchInPlace {s : Store} (hs : s.Covered) (index : ℕ) (ps : List Program) :
    Agrees ((s.patchInPlace index ps).map (·.map Patched.owned) id)
      ((s.patchCopy index ps).map (·.map Patched.owned) id) := by
  unfold patchInPlace patchCopy
  rcases hc : s.chunk? index with _ | c
  · exact ⟨rfl, Alike.refl s⟩
  · simp only [Chunk.patchCopy_eq_map]
    rcases hpatch : c.patchInPlace index ps with e | d
    · exact ⟨rfl, Alike.refl s⟩
    · have houtline : d.outline = c.outline :=
        Chunk.outline_patchInPlace (hs.sound hc).whole hpatch
      have hbackend : d.job.backend = c.job.backend := congrArg Outline.backend houtline
      refine ⟨?_, rfl, rfl, outlines_place_self hc houtline, rfl, rfl⟩
      simp only [Except.map, Prod.map_fst, Patched.owned, hbackend]

/-- The result of a patch in either mode, with a job of its own, is that of patching a copy. -/
theorem agrees_patch {s : Store} (hs : s.Covered) (index : ℕ) (ps : List Program) :
    Agrees ((s.patch index ps).map (·.map Patched.owned) id)
      ((s.patchCopy index ps).map (·.map Patched.owned) id) := by
  unfold patch
  split
  · exact ⟨rfl, Alike.refl _⟩
  · exact agrees_patchInPlace hs index ps

theorem Agrees.trans {α : Type} {r r' r'' : α × Store} (h : Agrees r r') (h' : Agrees r' r'') :
    Agrees r r'' := ⟨h.result.trans h'.result, h.store.trans h'.store⟩

theorem Agrees.symm {α : Type} {r r' : α × Store} (h : Agrees r r') : Agrees r' r :=
  ⟨h.result.symm, h.store.symm⟩

theorem Agrees.map {α β : Type} {r r' : α × Store} (h : Agrees r r') (f : α → β) :
    Agrees (r.map f id) (r'.map f id) := ⟨congrArg f h.result, h.store⟩

/-! ## Calls and runs -/

/-- A call gives the same result on stores that are alike, and leaves them alike. -/
theorem Alike.act {s t : Store} (h : s.Alike t) (hs : s.Covered) (ht : t.Covered)
    {now later : Instant} (hnow : now.IsValid) (hlater : later.IsValid) (a : Action) :
    Agrees ((s.act now a).map Outcome.owned id) ((t.act later a).map Outcome.owned id) := by
  cases a with
  | lookup index ps => exact (h.lookup hs ht index ps).map Outcome.found
  | insert index job ps => exact (h.insert hs ht hnow hlater index job ps).map Outcome.changed
  | ensureCapacity index count => exact (h.ensureCapacity hs ht index count).map Outcome.changed
  | patchCopy index ps =>
    exact ((h.patchCopy hs ht index ps).map (·.map Patched.owned)).map Outcome.patched
  | patchInPlace index ps =>
    have hcopy := (h.patchCopy hs ht index ps).map (·.map Patched.owned)
    exact (((agrees_patchInPlace hs index ps).trans hcopy).trans
      (agrees_patchInPlace ht index ps).symm).map Outcome.patched
  | patch index ps =>
    have hcopy := (h.patchCopy hs ht index ps).map (·.map Patched.owned)
    exact (((agrees_patch hs index ps).trans hcopy).trans
      (agrees_patch ht index ps).symm).map Outcome.patched
  | clear => exact ⟨rfl, h.clear⟩
  | reload => exact ⟨rfl, h.reload⟩
  | restart => exact ⟨rfl, h.restart⟩
  | cycle => exact (h.loadBytes (h.toBytes hs ht hnow hlater)).map Outcome.stored
  | loadBytes bytes => exact (h.loadBytes rfl).map Outcome.stored
  | overwrite bytes => exact (h.overwrite bytes).map Outcome.stored

/-- The same calls, at times that may differ. -/
def SameCalls (calls others : List (Instant × Action)) : Prop :=
  List.Forall₂ (fun x y => x.2 = y.2 ∧ x.1.IsValid ∧ y.1.IsValid) calls others

/-- The same calls give the same results on stores that are alike. -/
theorem Alike.outcomes {s t : Store} (h : s.Alike t) (hs : s.Covered) (ht : t.Covered)
    {calls others : List (Instant × Action)} (hcalls : SameCalls calls others) :
    (s.outcomes calls).map Outcome.owned = (t.outcomes others).map Outcome.owned := by
  induction hcalls generalizing s t with
  | nil => rfl
  | @cons x y rest rest' hxy _ ih =>
    obtain ⟨now, a⟩ := x
    obtain ⟨later, b⟩ := y
    obtain ⟨rfl, hnow, hlater⟩ := hxy
    have hact := h.act hs ht hnow hlater a
    rw [Store.outcomes, Store.outcomes, List.map_cons, List.map_cons]
    exact congrArg₂ List.cons hact.result (ih hact.store (hs.act now a) (ht.act later a))

/-! ## What a patched job carries -/

/-- What agrees with a patched copy carries nothing but the parameters and names of the batch. -/
theorem carries_of_agrees {s : Store} (hs : s.Covered) {index : ℕ} {ps : List Program}
    {result : Except CacheError Patched × Store} {r : Patched}
    (h : Agrees (result.map (·.map Patched.owned) id)
      ((s.patchCopy index ps).map (·.map Patched.owned) id)) (hr : result.1 = .ok r) :
    List.Forall₂ SubJob.Carries r.subJobs ps := by
  have hcopy := h.result
  rw [Prod.map_fst, Prod.map_fst, hr] at hcopy
  unfold patchCopy at hcopy
  rcases hc : s.chunk? index with _ | c
  · simp [hc, Except.map] at hcopy
  · obtain ⟨backend, xs, rfl, -, hxs⟩ := (hs.sound hc).exists_slots
    rcases hpatch : (Chunk.ofSlots backend xs).patchCopy index ps with e | ss
    · simp [hc, hpatch, Except.map] at hcopy
    · simp only [hc, hpatch, Except.map, Except.ok.injEq] at hcopy
      have hss : r.subJobs = ss := congrArg Patched.subJobs hcopy
      obtain ⟨hle, haccepts, rfl⟩ := Chunk.patchCopy_ofSlots_eq_ok_iff.1 hpatch
      rw [hss]
      exact Slot.forall₂_carries_write hle hxs haccepts

/-- Two stores are opened over the same backing, one safe and one fast, and the same calls are made
of both, each at its own times. Every call gives the same result on both, the same job where one is
patched, except that the fast store may lend it. In either store a patched job has the names of its
batch and no parameters but those of its batch. -/
theorem outcomes_eq_of_modes (config : Config) (backing : Backing)
    {calls others : List (Instant × Action)} (hcalls : SameCalls calls others) :
    ((opened { config with fastMode := false } backing).outcomes calls).map Outcome.owned =
      ((opened { config with fastMode := true } backing).outcomes others).map Outcome.owned ∧
    ∀ (fast : Bool) (index : ℕ) (ps : List Program) (r : Patched),
      let s := (opened { config with fastMode := fast } backing).run calls
      (s.patch index ps).1 = .ok r ∨ (s.patchCopy index ps).1 = .ok r ∨
        (s.patchInPlace index ps).1 = .ok r →
      List.Forall₂ SubJob.Carries r.subJobs ps := by
  constructor
  · have halike : (opened { config with fastMode := false } backing).Alike
        (opened { config with fastMode := true } backing) := ⟨rfl, rfl, rfl, rfl, rfl⟩
    exact halike.outcomes (covered_opened _ backing) (covered_opened _ backing) hcalls
  · intro fast index ps r s hr
    have hs : s.Covered := (covered_opened _ backing).run calls
    rcases hr with hr | hr | hr
    · exact carries_of_agrees hs (agrees_patch hs index ps) hr
    · exact carries_of_agrees hs ⟨rfl, Alike.refl _⟩ hr
    · exact carries_of_agrees hs (agrees_patchInPlace hs index ps) hr

end Store

/-! ## An example -/

namespace Example

/-- Another time to save at. -/
def evening : Instant := ⟨⟨2024, 1, 2⟩, 20, 30, 0, 5000⟩

/-- The rotation is patched with another one and copied to chunk 1. -/
def rotationCalls (time : Instant) : List (Instant × Action) :=
  [(time, .insert 0 rotationJob [rotation]), (time, .patch 0 [otherRotation]),
    (time, .ensureCapacity 1 1), (time, .patch 1 [rotation])]

/-- The two stores give the same jobs, though the fast one has other parameters in its chunks. -/
theorem rotationCalls_outcomes :
    Store.SameCalls (rotationCalls noon) (rotationCalls evening) ∧
    ((Store.opened {} (.memory none)).outcomes (rotationCalls noon)).map Outcome.owned =
      ((Store.opened { fastMode := true } (.memory none)).outcomes (rotationCalls evening)).map
        Outcome.owned ∧
    ((Store.opened {} (.memory none)).run (rotationCalls noon)).chunks ≠
      ((Store.opened { fastMode := true } (.memory none)).run (rotationCalls evening)).chunks := by
  have hevening : evening.IsValid := by constructor <;> decide
  have hcalls : Store.SameCalls (rotationCalls noon) (rotationCalls evening) :=
    .cons ⟨rfl, isValid_noon, hevening⟩ (.cons ⟨rfl, isValid_noon, hevening⟩
      (.cons ⟨rfl, isValid_noon, hevening⟩ (.cons ⟨rfl, isValid_noon, hevening⟩ .nil)))
  exact ⟨hcalls, (Store.outcomes_eq_of_modes {} (.memory none) hcalls).1, by decide +kernel⟩

end Example

end CircuitCache
