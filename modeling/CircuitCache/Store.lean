import CircuitCache.Backing
import CircuitCache.Chunk.Patch
import CircuitCache.Config
import CircuitCache.Stats

/-!
# The store

A store holds chunks by index, with gaps, and counts what happens to it.  Every operation returns
its result together with the store after it; one that fails returns the store as it was.
-/

namespace CircuitCache

/-- A cache of compiled jobs. -/
structure Store where
  config : Config
  chunks : List (Option Chunk)
  counters : Counters
  backing : Backing
  deriving DecidableEq, Repr

namespace Store

/-! ## Looking -/

/-- The chunk at an index, none for a gap and beyond the last chunk. -/
def chunk? (s : Store) (index : Nat) : Option Chunk := (s.chunks[index]?).join

theorem getElem?_of_chunk? {s : Store} {index : Nat} {c : Chunk} (h : s.chunk? index = some c) :
    s.chunks[index]? = some (some c) := Option.join_eq_some_iff.1 h

/-- The chunks in order, gaps left out. -/
def present (s : Store) : List Chunk := s.chunks.filterMap id

/-- The slots of all chunks together. -/
def slotCount (s : Store) : Nat := s.present.foldr (fun c n => c.slotCount + n) 0

/-- The counters, with what the store holds now. -/
def stats (s : Store) : Stats := ⟨s.present.length, s.slotCount, s.counters⟩

/-- Whether two indices hold equal chunks, parameters compared as values, or both none. -/
def sameAt (s : Store) (i j : Nat) : Bool :=
  match s.chunk? i, s.chunk? j with
  | none, none => true
  | some c, some d => c.same d
  | _, _ => false

/-- The chunks in order with their indices, gaps left out. -/
def indexed (s : Store) : List (Nat × Chunk) :=
  s.chunks.zipIdx.filterMap fun (c, i) => c.map (i, ·)

/-! ## Opening and loading -/

/-- The chunks replaced by those of the backing. -/
def reload (s : Store) : Store := { s with chunks := s.backing.chunks }

/-- A store with what its backing holds. -/
def opened (config : Config) (backing : Backing) : Store :=
  reload ⟨config, [], {}, backing⟩

/-- A new store over the same backing. -/
def restart (s : Store) : Store := opened s.config s.backing

/-- No chunks and no counts; the backing stays as it is. -/
def clear (s : Store) : Store := { s with chunks := [], counters := {} }

/-- The stored form of the chunks. -/
def toBytes (s : Store) (savedAt : Instant) : Bytes := Snapshot.encode savedAt s.chunks

/-- The chunks replaced by those that bytes are the stored form of. -/
def loadBytes (s : Store) (bytes : Bytes) : Except StorageError Unit × Store :=
  match Snapshot.decode bytes with
  | .error e => (.error e, s)
  | .ok snapshot => (.ok (), { s with chunks := snapshot.chunks })

/-- Other bytes in the backing, as if put there by someone else. -/
def overwrite (s : Store) (bytes : Bytes) : Except StorageError Unit × Store :=
  let (result, backing) := s.backing.save bytes
  (result, { s with backing })

/-! ## Changing chunks -/

/-- A list of chunks with one at `index`, and gaps before it where the list was too short. -/
def place (index : Nat) (c : Chunk) (chunks : List (Option Chunk)) : List (Option Chunk) :=
  (chunks ++ List.replicate (index + 1 - chunks.length) none).set index (some c)

theorem length_place (index : Nat) (c : Chunk) (chunks : List (Option Chunk)) :
    (place index c chunks).length = max (index + 1) chunks.length := by
  simp only [place, List.length_set, List.length_append, List.length_replicate]
  omega

theorem getElem?_place_self (index : Nat) (c : Chunk) (chunks : List (Option Chunk)) :
    (place index c chunks)[index]? = some (some c) := by
  have : index < (chunks ++ List.replicate (index + 1 - chunks.length) none).length := by
    simp only [List.length_append, List.length_replicate]
    omega
  simp only [place, List.getElem?_set_self this]

theorem chunk?_of_place {s : Store} {index : Nat} {c : Chunk} {chunks : List (Option Chunk)}
    (h : s.chunks = place index c chunks) : s.chunk? index = some c := by
  rw [chunk?, h, getElem?_place_self]
  rfl

theorem place_eq_set {index : Nat} {chunks : List (Option Chunk)} (h : index < chunks.length)
    (c : Chunk) : place index c chunks = chunks.set index (some c) := by
  rw [place, Nat.sub_eq_zero_of_le h, List.replicate_zero, List.append_nil]

/-- Elsewhere a list keeps its chunks, and has none where it was too short. -/
theorem join_getElem?_place_of_ne {index i : Nat} (h : index ≠ i) (c : Chunk)
    (chunks : List (Option Chunk)) : (place index c chunks)[i]?.join = chunks[i]?.join := by
  simp only [place, List.getElem?_set_ne h, List.getElem?_append]
  split
  · rfl
  · rename_i hi
    rw [List.getElem?_replicate, List.getElem?_eq_none (Nat.le_of_not_lt hi)]
    split <;> rfl

/-- Refuses more programs than one submission may hold. -/
def checkLimit (s : Store) (index requested : Nat) : Except CacheError Unit :=
  if s.config.submissionSizeLimit < requested then
    .error (.shapeMismatch index requested s.config.submissionSizeLimit)
  else .ok ()

theorem checkLimit_of_le {s : Store} {requested : Nat}
    (h : requested ≤ s.config.submissionSizeLimit) (index : Nat) :
    s.checkLimit index requested = .ok () := if_neg (Nat.not_lt.2 h)

/-- Whether a chunk serves these programs. -/
def lookup (s : Store) (index : Nat) (programs : List Program) : Bool × Store :=
  if (s.chunk? index).any (·.serves programs) then
    (true, { s with counters.hits := s.counters.hits + 1 })
  else (false, { s with counters.misses := s.counters.misses + 1 })

/-- The mappings of the slots from `slot` on, or the error of the lowest slot that has none. -/
def buildMappings : (slot : Nat) → List Program → List SubJob → Except CacheError (List Mapping)
  | slot, p :: ps, s :: ss =>
    match Mapping.build slot p s with
    | .error e => .error e
    | .ok m =>
      match buildMappings (slot + 1) ps ss with
      | .error e => .error e
      | .ok ms => .ok (m :: ms)
  | _, _, _ => .ok []

/-- The chunk of a job that was compiled from these programs. -/
def compiled (job : Job) (programs : List Program) : Except CacheError Chunk :=
  if job.subJobs.length ≠ programs.length then
    .error (.structuralMismatch (min programs.length job.subJobs.length)
      (.slotCount job.subJobs.length programs.length))
  else
    match buildMappings 0 programs job.subJobs with
    | .error e => .error e
    | .ok mappings =>
      .ok ⟨{ job with subJobs := job.subJobs.map SubJob.unlisted }, mappings,
        programs.map Key.ofProgram⟩

/-- The chunks written to the backing; a failure to write goes unnoticed. -/
def persist (s : Store) (now : Instant) : Store :=
  { s with backing := (s.backing.save (s.toBytes now)).2 }

/-- Caches a job that was compiled from these programs, in place of what was there. -/
def insert (s : Store) (now : Instant) (index : Nat) (job : Job) (programs : List Program) :
    Except CacheError Unit × Store :=
  match s.checkLimit index programs.length with
  | .error e => (.error e, s)
  | .ok () =>
    match compiled job programs with
    | .error e => (.error e, s)
    | .ok c =>
      let s := { s with
        chunks := place index c s.chunks
        counters.inserts := s.counters.inserts + 1 }
      (.ok (), s.persist now)

/-- The store with a chunk that was filled with copies. -/
def reuse (s : Store) (index : Nat) (c : Chunk) : Store :=
  { s with chunks := place index c s.chunks, counters.reuses := s.counters.reuses + 1 }

/-- Makes a chunk able to serve `count` programs: an absent one becomes a copy of chunk 0, and
missing slots become copies of slot 0. -/
def ensureCapacity (s : Store) (index count : Nat) : Except CacheError Unit × Store :=
  match s.checkLimit index count with
  | .error e => (.error e, s)
  | .ok () =>
    match s.chunk? index with
    | none =>
      match s.config.reuseAcrossChunks, s.chunk? 0 with
      | true, some template =>
        match template.grow index count with
        | .error e => (.error e, s)
        | .ok c => (.ok (), s.reuse index c)
      | _, _ => (.error (.miss index), s)
    | some c =>
      if count ≤ c.slotCount then (.ok (), s)
      else if !s.config.reuseAcrossChunks then (.error (.miss index), s)
      else
        match c.grow index count with
        | .error e => (.error e, s)
        | .ok c => (.ok (), s.reuse index c)

/-! ## Patching -/

/-- The store with one more patch counted. -/
def countPatch (s : Store) : Store :=
  { s with counters.patches := s.counters.patches + 1 }

/-- Patches a copy of a chunk's sub-jobs. -/
def patchCopy (s : Store) (index : Nat) (programs : List Program) :
    Except CacheError Patched × Store :=
  match s.chunk? index with
  | none => (.error (.miss index), s)
  | some c =>
    match c.patchCopy index programs with
    | .error e => (.error e, s)
    | .ok subJobs => (.ok ⟨index, c.job.backend, subJobs, false⟩, s.countPatch)

/-- Patches a chunk itself and lends out its first sub-jobs. -/
def patchInPlace (s : Store) (index : Nat) (programs : List Program) :
    Except CacheError Patched × Store :=
  match s.chunk? index with
  | none => (.error (.miss index), s)
  | some c =>
    match c.patchInPlace index programs with
    | .error e => (.error e, s)
    | .ok c =>
      (.ok ⟨index, c.job.backend, c.job.subJobs.take programs.length, true⟩,
        { s with chunks := place index c s.chunks }.countPatch)

/-- Patches a chunk in the mode of the store. -/
def patch (s : Store) (index : Nat) (programs : List Program) : Except CacheError Patched × Store :=
  match s.config.mode with
  | .safe => s.patchCopy index programs
  | .fast => s.patchInPlace index programs

end Store

end CircuitCache
