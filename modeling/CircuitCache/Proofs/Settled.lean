import Mathlib
import CircuitCache.Proofs.Integrity
import CircuitCache.Proofs.Numerals
import CircuitCache.Proofs.Timestamps

/-!
# What comes back from storage

A store that loads its own bytes has the chunks it had, gaps included, with each word as it is read
again (`Chunk.settled`). Where the numerals of all finite words are read as these words, only the
words that are not numbers change: they all come back as one of them (`Chunk.canonical`). The bytes
are accepted because every chunk of a run passes verification and its positions fit a word, which
inserted programs and decoded bytes both see to.
-/

namespace CircuitCache

/-- A list is read as a whole when each item can be read. -/
theorem mapM_eq_some_iff_forall {α β : Type} {f : α → Option β} {P : α → Prop} {g : α → β}
    (h : ∀ x y, f x = some y ↔ P x ∧ y = g x) {xs : List α} {ys : List β} :
    xs.mapM f = some ys ↔ (∀ x ∈ xs, P x) ∧ ys = xs.map g := by
  rw [mapM_eq_some_iff]
  constructor
  · intro hall
    have hread (x : α) (hx : x ∈ xs) : ∃ y, f x = some y := by
      have hmem := List.mem_map_of_mem (f := f) hx
      rw [hall] at hmem
      obtain ⟨y, -, hy⟩ := List.mem_map.1 hmem
      exact ⟨y, hy.symm⟩
    refine ⟨fun x hx => ?_, ?_⟩
    · obtain ⟨y, hy⟩ := hread x hx
      exact ((h x y).1 hy).1
    · have heq := map_eq_of_mapM_eq_some (f := f) (g := g) (h := id)
        (fun x y hxy => ((h x y).1 hxy).2) (mapM_eq_some_iff.2 hall)
      rwa [List.map_id] at heq
  · rintro ⟨hall, rfl⟩
    rw [List.map_map]
    exact List.map_congr_left fun x hx => (h x (g x)).2 ⟨hall x hx, rfl⟩

theorem mapM_eq_some_map {α β : Type} {f : α → Option β} {g : α → β}
    (h : ∀ x, f x = some (g x)) (xs : List α) : xs.mapM f = some (xs.map g) := by
  rw [mapM_eq_some_iff, List.map_map]
  exact List.map_congr_left fun x _ => h x

/-! ## Words of jobs and chunks -/

namespace Instruction

/-- Every parameter put through a map. -/
def mapWords (f : Binary64 → Binary64) (i : Instruction) : Instruction :=
  { i with params := i.params.map f }

theorem reread?_eq (i : Instruction) : i.reread? = some (i.mapWords Binary64.settled) := by
  rw [reread?, mapM_eq_some_map Binary64.reread?_eq]
  rfl

theorem mapWords_eq_iff {f g : Binary64 → Binary64} {i : Instruction} :
    i.mapWords f = i.mapWords g ↔ ∀ x ∈ i.params, f x = g x := by
  simp [mapWords, List.map_inj_left]

end Instruction

namespace SubJob

/-- Every parameter of the instructions put through a map. -/
def mapWords (f : Binary64 → Binary64) (s : SubJob) : SubJob :=
  { s with instructions := s.instructions.map (Instruction.mapWords f) }

theorem reread?_eq (s : SubJob) : s.reread? = some (s.mapWords Binary64.settled) := by
  rw [reread?, mapM_eq_some_map Instruction.reread?_eq]
  rfl

theorem mapWords_eq_iff {f g : Binary64 → Binary64} {s : SubJob} :
    s.mapWords f = s.mapWords g ↔ ∀ i ∈ s.instructions, ∀ x ∈ i.params, f x = g x := by
  simp [mapWords, List.map_inj_left, Instruction.mapWords_eq_iff]

end SubJob

namespace Job

/-- Every parameter of the sub-jobs put through a map. -/
def mapWords (f : Binary64 → Binary64) (j : Job) : Job :=
  { j with subJobs := j.subJobs.map (SubJob.mapWords f) }

theorem reread?_eq (j : Job) : j.reread? = some (j.mapWords Binary64.settled) := by
  rw [reread?, mapM_eq_some_map SubJob.reread?_eq]
  rfl

theorem mapWords_eq_iff {f g : Binary64 → Binary64} {j : Job} :
    j.mapWords f = j.mapWords g ↔
      ∀ s ∈ j.subJobs, ∀ i ∈ s.instructions, ∀ x ∈ i.params, f x = g x := by
  simp [mapWords, List.map_inj_left, SubJob.mapWords_eq_iff]

end Job

/-- The positions of the entries fit a word. -/
def Mapping.FitsWords (m : Mapping) : Prop :=
  ∀ e ∈ m.entries, e.instruction < UInt64.size ∧ e.operation < UInt64.size

theorem Mapping.reread?_eq_some_iff {m n : Mapping} :
    m.reread? = some n ↔ m.FitsWords ∧ n = m := by
  have hentry (e d : Entry) : e.reread? = some d ↔
      (e.instruction < UInt64.size ∧ e.operation < UInt64.size) ∧ d = id e := by
    rw [Entry.reread?, Option.ite_none_right_eq_some, Option.some_inj, eq_comm (a := e)]
    rfl
  rw [reread?, Option.map_eq_some_iff]
  simp only [mapM_eq_some_iff_forall hentry, List.map_id]
  constructor
  · rintro ⟨entries, ⟨hfits, rfl⟩, rfl⟩
    exact ⟨hfits, rfl⟩
  · rintro ⟨hfits, rfl⟩
    exact ⟨n.entries, ⟨hfits, rfl⟩, rfl⟩

namespace Chunk

/-- Every parameter of the job put through a map. -/
def mapWords (f : Binary64 → Binary64) (c : Chunk) : Chunk := { c with job := c.job.mapWords f }

/-- The chunk as it is read again. -/
def settled (c : Chunk) : Chunk := c.mapWords Binary64.settled

/-- The chunk with all words that are not numbers taken as one. -/
def canonical (c : Chunk) : Chunk := c.mapWords Binary64.canonical

/-- All parameters of the job. -/
def words (c : Chunk) : List Binary64 :=
  c.job.subJobs.flatMap fun s => s.instructions.flatMap Instruction.params

theorem mapWords_eq_iff {f g : Binary64 → Binary64} {c : Chunk} :
    c.mapWords f = c.mapWords g ↔ ∀ x ∈ c.words, f x = g x := by
  have hjob : c.mapWords f = c.mapWords g ↔ c.job.mapWords f = c.job.mapWords g := by
    simp [mapWords]
  rw [hjob, Job.mapWords_eq_iff]
  simp only [words, List.mem_flatMap]
  exact ⟨fun h x ⟨s, hs, i, hi, hx⟩ => h s hs i hi x hx,
    fun h s hs i hi x hx => h x ⟨s, hs, i, hi, hx⟩⟩

/-- Every finite parameter is read as it is written. -/
def ReadsBack (c : Chunk) : Prop := ∀ x ∈ c.words, x.isFinite = true → x.ReadsBack

theorem settled_eq_canonical_iff {c : Chunk} : c.settled = c.canonical ↔ c.ReadsBack := by
  simp only [settled, canonical, mapWords_eq_iff, Binary64.settled_eq_canonical_iff, ReadsBack]

/-- The positions of all mappings fit a word. -/
def FitsWords (c : Chunk) : Prop := ∀ m ∈ c.mappings, m.FitsWords

/-- A chunk whose positions fit a word comes back settled; any other is not read. -/
theorem reread?_eq_some_iff {c d : Chunk} : c.reread? = some d ↔ c.FitsWords ∧ d = c.settled := by
  have hmapping (m n : Mapping) : m.reread? = some n ↔ m.FitsWords ∧ n = id m :=
    Mapping.reread?_eq_some_iff
  rw [reread?, Job.reread?_eq]
  simp only [Option.bind_eq_bind, Option.bind_some, Option.bind_eq_some_iff, Option.pure_def,
    Option.some_inj, mapM_eq_some_iff_forall hmapping, List.map_id]
  constructor
  · rintro ⟨mappings, ⟨hfits, rfl⟩, rfl⟩
    exact ⟨hfits, rfl⟩
  · rintro ⟨hfits, rfl⟩
    exact ⟨c.mappings, ⟨hfits, rfl⟩, rfl⟩

/-- What passed verification passes it again when it is read. -/
theorem verify_of_reread? {c d : Chunk} (h : c.verify = .ok ()) (hread : c.reread? = some d) :
    d.verify = .ok () := by
  have hsound := (sound_of_verify h).reread? hread
  exact verify_eq_ok_iff.2 ⟨hsound.whole, hsound.slots⟩

end Chunk

/-! ## Snapshots -/

namespace Snapshot

theorem firstInvalid?_eq_none {chunks : List (Option Chunk)}
    (h : ∀ c, some c ∈ chunks → c.verify = .ok ()) (index : Nat) :
    firstInvalid? index chunks = none := by
  induction chunks generalizing index with
  | nil => rfl
  | cons oc rest ih =>
    have hrest := ih fun c hc => h c (List.mem_cons_of_mem oc hc)
    rcases oc with _ | c
    · exact hrest (index + 1)
    · rw [firstInvalid?, h c List.mem_cons_self]
      exact hrest (index + 1)

theorem mapM_rereadSlot?_eq_some_iff {chunks read : List (Option Chunk)} :
    chunks.mapM rereadSlot? = some read ↔
      (∀ c, some c ∈ chunks → c.FitsWords) ∧ read = chunks.map (Option.map Chunk.settled) := by
  have hslot (oc od : Option Chunk) :
      rereadSlot? oc = some od ↔ (∀ c ∈ oc, c.FitsWords) ∧ od = oc.map Chunk.settled := by
    rcases oc with _ | c
    · simp [rereadSlot?, eq_comm]
    · simp only [rereadSlot?, Option.map_eq_some_iff, Chunk.reread?_eq_some_iff, Option.mem_def,
        Option.some.injEq, forall_eq', Option.map_some]
      constructor
      · rintro ⟨d, ⟨hfits, rfl⟩, rfl⟩
        exact ⟨hfits, rfl⟩
      · rintro ⟨hfits, rfl⟩
        exact ⟨c.settled, ⟨hfits, rfl⟩, rfl⟩
  rw [mapM_eq_some_iff_forall hslot]
  refine and_congr_left fun _ => ⟨fun h c hc => h (some c) hc c rfl, fun h oc hoc c hc => ?_⟩
  exact h c (hc ▸ hoc)

/-- Every finite parameter of the chunks is read as it is written. -/
def AllReadBack (chunks : List (Option Chunk)) : Prop := ∀ c, some c ∈ chunks → c.ReadsBack

theorem map_settled_eq_iff {chunks : List (Option Chunk)} :
    chunks.map (Option.map Chunk.settled) = chunks.map (Option.map Chunk.canonical) ↔
      AllReadBack chunks := by
  rw [List.map_inj_left]
  constructor
  · intro h c hc
    exact Chunk.settled_eq_canonical_iff.1 (Option.some.inj (h (some c) hc))
  · rintro h (_ | c) hc
    · rfl
    · exact congrArg some (Chunk.settled_eq_canonical_iff.2 (h c hc))

/-- The stored form of verified chunks is decoded where its time and its positions can be read. -/
theorem decode_encode_eq {savedAt : Instant} {chunks : List (Option Chunk)}
    (h : ∀ c, some c ∈ chunks → c.verify = .ok ()) :
    decode (encode savedAt chunks) =
      match Instant.ofText? savedAt.textZulu, chunks.mapM rereadSlot? with
      | some time, some read => .ok ⟨currentVersion, time, read⟩
      | _, _ => .error .decode := by
  rw [decode, encode, Json.Value.read_octets_ofOctets_print (legible_toJson savedAt chunks),
    Option.bind_some, ofJson?_toJson]
  rcases Instant.ofText? savedAt.textZulu with _ | time
  · rfl
  · rcases hread : chunks.mapM rereadSlot? with _ | read
    · rfl
    · have hverify : ∀ d, some d ∈ read → d.verify = .ok () := by
        intro d hd
        obtain ⟨c, hc, hcd⟩ := exists_reread?_of_mem hread hd
        exact Chunk.verify_of_reread? (h c hc) hcd
      simp only [Option.bind_some, Option.map_some, ne_eq, not_true_eq_false, if_false,
        firstInvalid?_eq_none hverify]

end Snapshot

/-! ## Positions fit words -/

/-- The mapping of a slot that was just compiled has positions below the number of operations. -/
theorem Slot.IsCompiled.fitsWords {p : Program} {s : SubJob} {x : Slot} (h : x.IsCompiled p s)
    (hp : p.unrolled.length ≤ UInt64.size) : x.mapping.FitsWords := by
  obtain ⟨order, horder, rfl⟩ := h
  intro e he
  obtain ⟨hget, -⟩ := Mapping.mem_ofOrder.1 he
  have hlength : p.shapes.length = p.unrolled.length := List.length_map _
  have hoperation := List.mem_range.1 (horder.perm.mem_iff.1 (List.mem_of_getElem? hget))
  have hinstruction := (List.getElem?_eq_some_iff.1 hget).1
  have horderLength := horder.perm.length_eq
  rw [List.length_range] at horderLength
  omega

/-! ### Decoded positions -/

namespace Json

theorem exists_of_mem_listOfJson? {α : Type} {read : Value → Option α} {v : Value} {xs : List α}
    (h : listOfJson? read v = some xs) {x : α} (hx : x ∈ xs) : ∃ w, read w = some x := by
  rw [listOfJson?, Option.bind_eq_bind, Option.bind_eq_some_iff] at h
  obtain ⟨items, -, hitems⟩ := h
  have hmem := List.mem_map_of_mem (f := some) hx
  rw [← mapM_eq_some_iff.1 hitems] at hmem
  obtain ⟨w, -, hw⟩ := List.mem_map.1 hmem
  exact ⟨w, hw⟩

theorem lt_of_nat?_eq_some {bound n : ℕ} {v : Value} (h : v.nat? bound = some n) : n < bound := by
  unfold Value.nat? at h
  split at h
  · exact of_decide_eq_true (Option.filter_eq_some_iff.1 h).2
  · cases h

end Json

theorem Entry.fitsWord_of_ofJson? {v : Json.Value} {e : Entry} (h : ofJson? v = some e) :
    e.instruction < UInt64.size ∧ e.operation < UInt64.size := by
  simp only [ofJson?, Option.bind_eq_bind, Option.bind_eq_some_iff] at h
  obtain ⟨fields, -, h⟩ := h
  split at h
  · simp only [Option.bind_eq_some_iff, Option.pure_def, Option.some.injEq] at h
    obtain ⟨instruction, hinstruction, operation, hoperation, rfl⟩ := h
    exact ⟨Json.lt_of_nat?_eq_some hinstruction, Json.lt_of_nat?_eq_some hoperation⟩
  · cases h

theorem Mapping.fitsWords_of_ofJson? {v : Json.Value} {m : Mapping} (h : ofJson? v = some m) :
    m.FitsWords := by
  rw [ofJson?, Option.map_eq_some_iff] at h
  obtain ⟨entries, hentries, rfl⟩ := h
  intro e he
  obtain ⟨w, hw⟩ := Json.exists_of_mem_listOfJson? hentries he
  exact Entry.fitsWord_of_ofJson? hw

theorem Chunk.fitsWords_of_ofJson? {v : Json.Value} {c : Chunk} (h : ofJson? v = some c) :
    c.FitsWords := by
  simp only [ofJson?, Option.bind_eq_bind, Option.bind_eq_some_iff] at h
  obtain ⟨fields, -, h⟩ := h
  split at h
  · simp only [Option.bind_eq_some_iff, Option.pure_def, Option.some.injEq] at h
    obtain ⟨job, -, mappings, hmappings, keys, -, rfl⟩ := h
    intro m hm
    obtain ⟨w, hw⟩ := Json.exists_of_mem_listOfJson? hmappings hm
    exact Mapping.fitsWords_of_ofJson? hw
  · cases h

theorem Snapshot.fitsWords_of_ofJson? {v : Json.Value} {s : Snapshot} (h : ofJson? v = some s)
    {c : Chunk} (hc : some c ∈ s.chunks) : c.FitsWords := by
  simp only [ofJson?, Option.bind_eq_bind, Option.bind_eq_some_iff] at h
  obtain ⟨fields, -, h⟩ := h
  split at h
  · simp only [Option.bind_eq_some_iff, Option.pure_def, Option.some.injEq] at h
    obtain ⟨version, -, text, -, time, -, chunks, hchunks, rfl⟩ := h
    obtain ⟨w, hw⟩ := Json.exists_of_mem_listOfJson? hchunks hc
    unfold chunkOfJson? at hw
    split at hw
    · cases hw
    · obtain ⟨d, hd, hsome⟩ := Option.map_eq_some_iff.1 hw
      exact Chunk.fitsWords_of_ofJson? (Option.some.inj hsome ▸ hd)
  · cases h

/-- Decoded positions fit a word. -/
theorem Snapshot.fitsWords_of_decode {bytes : Bytes} {s : Snapshot} (h : decode bytes = .ok s)
    {c : Chunk} (hc : some c ∈ s.chunks) : c.FitsWords := by
  unfold decode at h
  split at h
  · cases h
  · next t ht =>
    obtain ⟨v, -, hv⟩ := Option.bind_eq_some_iff.1 ht
    split at h
    · cases h
    · split at h
      · cases h
      · exact fitsWords_of_ofJson? (Except.ok.inj h ▸ hv) hc

/-! ## Runs -/

/-- The programs that a call brings in have no more operations than a word can count. -/
def Action.FitsWords : Action → Prop
  | insert _ _ ps => ∀ p ∈ ps, p.unrolled.length ≤ UInt64.size
  | _ => True

/-- The mapping covers the shapes, at positions that fit a word. -/
def Skeleton.IsStorable (x : Skeleton) : Prop := x.mapping.Covers x.shapes ∧ x.mapping.FitsWords

namespace Chunk.Sound

variable {c : Chunk} (h : c.Sound (fun _ => True) Skeleton.IsStorable)
include h

theorem verify_eq_ok : c.verify = .ok () :=
  verify_eq_ok_iff.2 ⟨h.whole, fun x hx => (h.slots x hx).1⟩

theorem fitsWords : c.FitsWords := by
  obtain ⟨backend, xs, rfl, -, hxs⟩ := h.exists_slots
  intro m hm
  obtain ⟨x, hx, rfl⟩ := List.mem_map.1 hm
  exact (hxs x hx).2

end Chunk.Sound

theorem soundBytes_isStorable (bytes : Bytes) :
    SoundBytes (fun _ => True) Skeleton.IsStorable bytes := by
  intro s hs c hc
  have hsound := Chunk.sound_of_verify (Snapshot.verify_of_decode hs c hc)
  have hfits := Snapshot.fitsWords_of_decode hs hc
  obtain ⟨backend, xs, rfl, hbackend, hxs⟩ := hsound.exists_slots
  exact Chunk.sound_ofSlots_iff.2
    ⟨hbackend, fun x hx => ⟨hxs x hx, hfits x.mapping (List.mem_map_of_mem hx)⟩⟩

theorem Action.FitsWords.trusted {a : Action} (h : a.FitsWords) :
    a.Trusted (fun _ => True) Skeleton.IsStorable := by
  cases a with
  | insert chunk job ps =>
    exact fun c hc => sound_compiled trivial
      (fun p hp _ _ x hx => ⟨hx.covers, hx.fitsWords (h p hp)⟩) hc
  | loadBytes bytes => exact soundBytes_isStorable bytes
  | overwrite bytes => exact soundBytes_isStorable bytes
  | lookup | ensureCapacity | patch | patchCopy | patchInPlace | clear | reload | restart | cycle =>
    trivial

/-- Chunks that can be stored come back settled. -/
theorem Snapshot.decode_encode_of_isStorable {chunks : List (Option Chunk)}
    (h : AllSound (fun _ => True) Skeleton.IsStorable chunks) {now : Instant}
    (hnow : now.IsValid) : decode (encode now chunks) =
      .ok ⟨currentVersion, now, chunks.map (Option.map Chunk.settled)⟩ := by
  rw [decode_encode_eq fun c hc => (h c hc).verify_eq_ok, Instant.ofText?_textZulu hnow,
    mapM_rereadSlot?_eq_some_iff.2 ⟨fun c hc => (h c hc).fitsWords, rfl⟩]

namespace Store

/-- After every run, over whatever backing and with whatever bytes from outside, a store that loads
its own bytes succeeds and has the chunks it had: as many, with the same gaps, backends, names,
listings, tags, operands, mappings and keys, and each parameter as it is read again. Where every
finite parameter is read as it is written, each parameter is the word it was, bit by bit, unless it
is not a number, and then it is none. -/
theorem loadBytes_toBytes_of_run (config : Config) (backing : Backing)
    {calls : List (Instant × Action)} (hcalls : ∀ call ∈ calls, call.2.FitsWords) {now : Instant}
    (hnow : now.IsValid) :
    let s := (opened config backing).run calls
    s.loadBytes (s.toBytes now) =
        (.ok (), { s with chunks := s.chunks.map (Option.map Chunk.settled) }) ∧
      (Snapshot.AllReadBack s.chunks → s.loadBytes (s.toBytes now) =
        (.ok (), { s with chunks := s.chunks.map (Option.map Chunk.canonical) })) ∧
      ∀ x : Binary64, (x.isNaN = false → x.canonical = x) ∧
        (x.isNaN = true → x.canonical.isNaN = true) := by
  intro s
  have hholds : s.Holds (fun _ => True) Skeleton.IsStorable :=
    (holds_opened fun bytes _ => soundBytes_isStorable bytes).run
      fun call hcall => (hcalls call hcall).trusted
  have hload : s.loadBytes (s.toBytes now) =
      (.ok (), { s with chunks := s.chunks.map (Option.map Chunk.settled) }) := by
    rw [loadBytes, toBytes, Snapshot.decode_encode_of_isStorable hholds.chunks hnow]
  refine ⟨hload, fun hread => ?_, fun x => ⟨fun h => ?_, fun h => ?_⟩⟩
  · rw [hload, Snapshot.map_settled_eq_iff.2 hread]
  · rw [Binary64.canonical, if_neg (ne_true_of_eq_false h)]
  · rw [Binary64.canonical, if_pos h]
    decide

end Store

namespace Example

/-- The rotation by three words: what is no number, the zero below all positive numbers, and a
number. -/
def strayRotation : Program :=
  .ofOperations "stray" [⟨.u3, [0], [.float (Binary64.nan true), .float (.ofMagnitude true 0),
    .float ⟨0x3FB999999999999A⟩]⟩]

/-- The chunk of the rotation by such words, the first with a sign. -/
def strayChunk (negative : Bool) : Chunk :=
  .ofSlots "device" [⟨⟨"stray", [⟨.u3, [0], [Binary64.nan negative, .ofMagnitude true 0,
    ⟨0x3FB999999999999A⟩]⟩], none⟩, ⟨[⟨0, 0⟩]⟩, Key.ofProgram strayRotation⟩]

theorem isValid_noon : noon.IsValid := by
  constructor <;> decide

/-- There is a gap before the chunk, and its first word comes back with another sign. -/
theorem loadBytes_toBytes_stray :
    let calls := [(noon, .insert 1 ⟨"device", [⟨"any", [⟨.u3, [0], [.zero, .zero, .zero]⟩], none⟩]⟩
      [strayRotation]), (noon, Action.patchInPlace 1 [strayRotation])]
    let s := (Store.opened {} .none).run calls
    (∀ call ∈ calls, call.2.FitsWords) ∧ noon.IsValid ∧ Snapshot.AllReadBack s.chunks ∧
      s.chunks = [none, some (strayChunk true)] ∧
      s.loadBytes (s.toBytes noon) =
        (.ok (), { s with chunks := [none, some (strayChunk false)] }) := by
  intro calls s
  have hcalls : ∀ call ∈ calls, call.2.FitsWords := by
    intro call hcall
    simp only [calls, List.mem_cons, List.not_mem_nil, or_false] at hcall
    rcases hcall with rfl | rfl
    · intro p hp
      rw [List.mem_singleton.1 hp]
      decide
    · trivial
  have hchunks : s.chunks = [none, some (strayChunk true)] := by decide +kernel
  have hread : Snapshot.AllReadBack s.chunks := by
    rw [hchunks]
    intro c hc
    obtain rfl : c = strayChunk true := by simpa using hc
    show ∀ x ∈ (strayChunk true).words, x.isFinite = true → x.ReadsBack
    decide +kernel
  have hcanonical : s.chunks.map (Option.map Chunk.canonical) = [none, some (strayChunk false)] := by
    decide +kernel
  refine ⟨hcalls, isValid_noon, hread, hchunks, ?_⟩
  rw [(Store.loadBytes_toBytes_of_run {} .none hcalls isValid_noon).2.1 hread, hcanonical]

end Example

end CircuitCache
