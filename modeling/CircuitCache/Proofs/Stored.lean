import Mathlib
import CircuitCache.Snapshot
import CircuitCache.Proofs.JsonText
import CircuitCache.Proofs.Slots

/-!
# What is stored and read again

Whatever a store writes is legible, and reading it comes down to reading its numbers: parameters are
read as words (`Binary64.reread?`), positions must fit a word, and everything else is as it was.  So
a chunk that is stored and read again keeps its backend, its mappings, its keys and the skeletons of
its slots, whatever becomes of its parameters.
-/

namespace CircuitCache

open Json

/-! ## Reading lists -/

theorem mapM_eq_some_iff {α β : Type} {f : α → Option β} {xs : List α} {ys : List β} :
    xs.mapM f = some ys ↔ xs.map f = ys.map some := by
  induction xs generalizing ys with
  | nil => cases ys <;> simp
  | cons x xs ih =>
    rw [List.mapM_cons]
    rcases hx : f x with _ | y
    · cases ys <;> simp [hx]
    · rcases hxs : xs.mapM f with _ | zs
      · -- A failure later in the list fails the whole, and is met again in the tail.
        refine iff_of_false (by simp) fun h => ?_
        cases ys with
        | nil => simp at h
        | cons z zs =>
          rw [List.map_cons, List.map_cons, List.cons.injEq] at h
          rw [ih.2 h.2] at hxs
          cases hxs
      · have hzs := ih.1 hxs
        cases ys with
        | nil => simp
        | cons z ws =>
          have hinj : List.map some zs = List.map some ws ↔ zs = ws :=
            (List.map_injective_iff.2 (Option.some_injective β)).eq_iff
          simp [hx, hzs, hinj]

/-- Reading that changes nothing to look at leaves a list as it looked. -/
theorem map_eq_of_mapM_eq_some {α β γ : Type} {f : α → Option β} {g : α → γ} {h : β → γ}
    (hf : ∀ x y, f x = some y → h y = g x) {xs : List α} {ys : List β} (hxs : xs.mapM f = some ys) :
    ys.map h = xs.map g := by
  rw [mapM_eq_some_iff] at hxs
  refine List.ext_getElem? fun i => ?_
  have hi := congrArg (·[i]?) hxs
  simp only [List.getElem?_map] at hi ⊢
  rcases hx : xs[i]? with _ | x
  · rw [hx, Option.map_none, eq_comm, Option.map_eq_none_iff] at hi
    rw [hi]
    rfl
  · rw [hx, Option.map_some, eq_comm, Option.map_eq_some_iff] at hi
    obtain ⟨y, hy, hxy⟩ := hi
    rw [hy]
    exact congrArg some (hf x y hxy.symm)

theorem listOfJson?_array_map {α β : Type} (read : Value → Option α) (write : β → Value)
    (xs : List β) : listOfJson? read (.array (xs.map write)) = xs.mapM fun x => read (write x) := by
  rw [listOfJson?, Value.items?]
  exact List.mapM_map

theorem text?_text (s : String) : (Value.text s).text? = some s := textOf?_written s

theorem nat?_nat (bound n : Nat) : (Value.nat n).nat? bound = if n < bound then some n else none := by
  rw [Value.nat, Value.nat?, Numeral.nat?, Numeral.ofNat, if_pos ⟨rfl, rfl, rfl⟩,
    Nat.ofDigitChars_ten_toDigits]
  by_cases h : n < bound
  · simp [h]
  · rw [if_neg h]
    simp [Nat.not_lt.1 h]

/-! ## Jobs -/

namespace Binary64

/-- The word that is read where a word was written. -/
def reread? (x : Binary64) : Option Binary64 := ofJson? x.toJson

end Binary64

theorem Tag.ofJson?_toJson (tag : Tag) : Tag.ofJson? tag.toJson = some tag := by
  rw [Tag.toJson, Value.text, Tag.ofJson?, textOf?_written, Option.bind_some, Tag.ofName?_name]

namespace Instruction

/-- The instruction that is read where an instruction was written. -/
def reread? (i : Instruction) : Option Instruction :=
  (i.params.mapM Binary64.reread?).map fun params => { i with params }

theorem addressOfJson?_nat (a : Address) : addressOfJson? (.nat a.toNat) = some a := by
  rw [addressOfJson?, nat?_nat, if_pos a.toNat_lt, Option.map_some, UInt64.ofNat_toNat]

theorem ofJson?_toJson (i : Instruction) : ofJson? i.toJson = i.reread? := by
  have hfields : i.toJson.fields? fieldNames =
      some [some i.tag.toJson, some (.array (i.operands.map fun a => .nat a.toNat)),
        some (.array (i.params.map Binary64.toJson))] := by
    simp [toJson, fieldNames, Value.fields?, Value.named?, field, textOf?_written, Value.member?]
  have hoperands : listOfJson? addressOfJson? (.array (i.operands.map fun a => .nat a.toNat)) =
      some i.operands := by
    rw [listOfJson?_array_map, mapM_eq_some_iff]
    exact List.map_congr_left fun a _ => addressOfJson?_nat a
  rw [ofJson?, hfields]
  simp only [Option.bind_eq_bind, Option.bind_some, Tag.ofJson?_toJson, hoperands,
    listOfJson?_array_map]
  rw [reread?]
  show (i.params.mapM Binary64.reread?).bind _ = _
  cases i.params.mapM Binary64.reread? <;> rfl

theorem shape_reread? {i j : Instruction} (h : i.reread? = some j) : j.shape = i.shape := by
  rw [reread?, Option.map_eq_some_iff] at h
  obtain ⟨params, hparams, rfl⟩ := h
  have hlength := congrArg List.length (mapM_eq_some_iff.1 hparams)
  rw [List.length_map, List.length_map] at hlength
  rw [shape, shape, ← hlength]
  rfl

end Instruction

namespace SubJob

/-- The sub-job that is read where a sub-job was written. -/
def reread? (s : SubJob) : Option SubJob :=
  (s.instructions.mapM Instruction.reread?).map fun instructions => { s with instructions }

theorem ofJson?_toJson (s : SubJob) : ofJson? s.toJson = s.reread? := by
  have hfields : s.toJson.fields? fieldNames =
      some [some (.text s.name), some (.array (s.instructions.map Instruction.toJson)),
        s.listing.map Value.text] := by
    rcases hl : s.listing with _ | l <;>
      simp [toJson, fieldNames, Value.fields?, Value.named?, field, textOf?_written, Value.member?,
        hl]
  have hlisting : listingOfJson? (s.listing.map Value.text) = some s.listing := by
    rcases s.listing with _ | l
    · rfl
    · rw [Option.map_some, Value.text, listingOfJson?, Value.text?, textOf?_written]
      · rfl
      · simp
  rw [ofJson?, hfields]
  simp only [Option.bind_eq_bind, Option.bind_some, text?_text, hlisting, listOfJson?_array_map,
    Instruction.ofJson?_toJson]
  unfold reread?
  cases s.instructions.mapM Instruction.reread? <;> rfl

theorem eq_of_reread? {s t : SubJob} (h : s.reread? = some t) :
    t.name = s.name ∧ t.shapes = s.shapes ∧ t.listing = s.listing := by
  rw [reread?, Option.map_eq_some_iff] at h
  obtain ⟨instructions, hinstructions, rfl⟩ := h
  exact ⟨rfl, map_eq_of_mapM_eq_some (fun _ _ => Instruction.shape_reread?) hinstructions, rfl⟩

end SubJob

namespace Job

/-- The job that is read where a job was written. -/
def reread? (j : Job) : Option Job :=
  (j.subJobs.mapM SubJob.reread?).map fun subJobs => { j with subJobs }

theorem ofJson?_toJson (j : Job) : ofJson? j.toJson = j.reread? := by
  have hfields : j.toJson.fields? fieldNames =
      some [some (.text j.backend), some (.array (j.subJobs.map SubJob.toJson))] := by
    simp [toJson, fieldNames, Value.fields?, Value.named?, field, textOf?_written, Value.member?]
  rw [ofJson?, hfields]
  simp only [Option.bind_eq_bind, Option.bind_some, text?_text, listOfJson?_array_map,
    SubJob.ofJson?_toJson]
  unfold reread?
  cases j.subJobs.mapM SubJob.reread? <;> rfl

end Job

/-! ## Mappings and chunks -/

namespace Entry

/-- The entry that is read where an entry was written: both positions must fit a word. -/
def reread? (e : Entry) : Option Entry :=
  if e.instruction < UInt64.size ∧ e.operation < UInt64.size then some e else none

theorem ofJson?_toJson (e : Entry) : ofJson? e.toJson = e.reread? := by
  have hfields : e.toJson.fields? fieldNames =
      some [some (.nat e.instruction), some (.nat e.operation)] := by
    simp [toJson, fieldNames, Value.fields?, Value.named?, field, textOf?_written, Value.member?]
  rw [ofJson?, hfields, reread?]
  simp only [Option.bind_eq_bind, Option.bind_some, nat?_nat]
  by_cases hi : e.instruction < UInt64.size
  · by_cases ho : e.operation < UInt64.size <;> simp [hi, ho]
  · simp [hi]

end Entry

namespace Mapping

/-- The mapping that is read where a mapping was written. -/
def reread? (m : Mapping) : Option Mapping := (m.entries.mapM Entry.reread?).map Mapping.mk

theorem ofJson?_toJson (m : Mapping) : ofJson? m.toJson = m.reread? := by
  rw [ofJson?, toJson, listOfJson?_array_map, reread?]
  simp only [Entry.ofJson?_toJson]

theorem eq_of_reread? {m n : Mapping} (h : m.reread? = some n) : n = m := by
  rw [reread?, Option.map_eq_some_iff] at h
  obtain ⟨entries, hentries, rfl⟩ := h
  have hentry (d e : Entry) (h : d.reread? = some e) : id e = id d := by
    rw [Entry.reread?, Option.ite_none_right_eq_some, Option.some_inj] at h
    exact h.2.symm
  have heq := map_eq_of_mapM_eq_some hentry hentries
  rw [List.map_id, List.map_id] at heq
  rw [heq]

end Mapping

theorem Key.ofJson?_toJson (k : Key) : Key.ofJson? k.toJson = some k := by
  rw [Key.ofJson?, Key.toJson, text?_text]
  rfl

namespace Chunk

/-- The chunk that is read where a chunk was written. -/
def reread? (c : Chunk) : Option Chunk := do
  let job ← c.job.reread?
  let mappings ← c.mappings.mapM Mapping.reread?
  return ⟨job, mappings, c.keys⟩

theorem ofJson?_toJson (c : Chunk) : ofJson? c.toJson = c.reread? := by
  have hfields : c.toJson.fields? fieldNames =
      some [some c.job.toJson, some (.array (c.mappings.map Mapping.toJson)),
        some (.array (c.keys.map Key.toJson))] := by
    simp [toJson, fieldNames, Value.fields?, Value.named?, field, textOf?_written, Value.member?]
  have hkeys : listOfJson? Key.ofJson? (.array (c.keys.map Key.toJson)) = some c.keys := by
    rw [listOfJson?_array_map, mapM_eq_some_iff]
    exact List.map_congr_left fun k _ => k.ofJson?_toJson
  rw [ofJson?, hfields, reread?]
  simp only [Option.bind_eq_bind, Option.bind_some, Job.ofJson?_toJson, listOfJson?_array_map,
    Mapping.ofJson?_toJson, hkeys]

/-- What a chunk keeps when it is stored and read again. -/
theorem eq_of_reread? {c d : Chunk} (h : c.reread? = some d) :
    d.job.backend = c.job.backend ∧ d.mappings = c.mappings ∧ d.keys = c.keys ∧
      d.job.subJobs.map (fun s => (s.name, s.shapes, s.listing)) =
        c.job.subJobs.map fun s => (s.name, s.shapes, s.listing) := by
  simp only [reread?, Option.bind_eq_bind, Option.bind_eq_some_iff, Option.pure_def,
    Option.some_inj] at h
  obtain ⟨job, hjob, mappings, hmappings, rfl⟩ := h
  rw [Job.reread?, Option.map_eq_some_iff] at hjob
  obtain ⟨subJobs, hsubJobs, rfl⟩ := hjob
  have hmapping (m n : Mapping) (h : m.reread? = some n) : id n = id m := Mapping.eq_of_reread? h
  refine ⟨rfl, ?_, rfl, map_eq_of_mapM_eq_some (fun s t hst => ?_) hsubJobs⟩
  · simpa using map_eq_of_mapM_eq_some hmapping hmappings
  · obtain ⟨hname, hshapes, hlisting⟩ := SubJob.eq_of_reread? hst
    rw [hname, hshapes, hlisting]

end Chunk

/-! ## Legibility -/

namespace Json.Value

/-- An object of fields that are legible is. -/
theorem legible_fields {ms : List (List Char × Value)}
    (h : ∀ m ∈ ms, ∃ name v, m = field name v ∧ v.Legible) : (object ms).Legible := by
  refine .object (fun m hm => ?_) fun m hm => ?_
  · obtain ⟨name, v, rfl, -⟩ := h m hm
    exact ⟨_, areOctets_octets (Text.utf8 name), rfl⟩
  · obtain ⟨name, v, rfl, hv⟩ := h m hm
    exact hv

theorem legible_map {α : Type} {write : α → Value} (h : ∀ x, (write x).Legible) (xs : List α) :
    (array (xs.map write)).Legible := by
  refine .array fun v hv => ?_
  obtain ⟨x, -, rfl⟩ := List.mem_map.1 hv
  exact h x

end Json.Value

open Value

theorem Binary64.legible_numeral (x : Binary64) : x.numeral.Legible := legible_ofDecimal x.shortest

theorem Binary64.legible_toJson (x : Binary64) : x.toJson.Legible := by
  unfold Binary64.toJson
  split
  · exact .number x.legible_numeral
  · split
    · exact legible_text "NaN"
    · split
      · exact legible_text "-inf"
      · exact legible_text "inf"

theorem Instruction.legible_toJson (i : Instruction) : i.toJson.Legible := by
  refine legible_fields fun m hm => ?_
  simp only [List.mem_cons, List.not_mem_nil, or_false] at hm
  rcases hm with rfl | rfl | rfl
  · exact ⟨_, _, rfl, legible_text i.tag.name⟩
  · exact ⟨_, _, rfl, legible_map (fun a : Address => legible_nat a.toNat) i.operands⟩
  · exact ⟨_, _, rfl, legible_map Binary64.legible_toJson i.params⟩

theorem SubJob.legible_toJson (s : SubJob) : s.toJson.Legible := by
  refine legible_fields fun m hm => ?_
  simp only [List.mem_append, List.mem_cons, List.not_mem_nil, or_false, Option.mem_toList,
    Option.map_eq_some_iff] at hm
  rcases hm with (rfl | rfl) | ⟨l, -, rfl⟩
  · exact ⟨_, _, rfl, legible_text s.name⟩
  · exact ⟨_, _, rfl, legible_map Instruction.legible_toJson s.instructions⟩
  · exact ⟨_, _, rfl, legible_text l⟩

theorem Job.legible_toJson (j : Job) : j.toJson.Legible := by
  refine legible_fields fun m hm => ?_
  simp only [List.mem_cons, List.not_mem_nil, or_false] at hm
  rcases hm with rfl | rfl
  · exact ⟨_, _, rfl, legible_text j.backend⟩
  · exact ⟨_, _, rfl, legible_map SubJob.legible_toJson j.subJobs⟩

theorem Entry.legible_toJson (e : Entry) : e.toJson.Legible := by
  refine legible_fields fun m hm => ?_
  simp only [List.mem_cons, List.not_mem_nil, or_false] at hm
  rcases hm with rfl | rfl
  · exact ⟨_, _, rfl, legible_nat e.instruction⟩
  · exact ⟨_, _, rfl, legible_nat e.operation⟩

theorem Mapping.legible_toJson (m : Mapping) : m.toJson.Legible :=
  legible_map Entry.legible_toJson m.entries

theorem Chunk.legible_toJson (c : Chunk) : c.toJson.Legible := by
  refine legible_fields fun m hm => ?_
  simp only [List.mem_cons, List.not_mem_nil, or_false] at hm
  rcases hm with rfl | rfl | rfl
  · exact ⟨_, _, rfl, c.job.legible_toJson⟩
  · exact ⟨_, _, rfl, legible_map Mapping.legible_toJson c.mappings⟩
  · exact ⟨_, _, rfl, legible_map (fun k : Key => legible_text k.text) c.keys⟩

/-! ## Snapshots -/

namespace Snapshot

/-- What is read where a chunk or a gap was written. -/
def rereadSlot? : Option Chunk → Option (Option Chunk)
  | none => some none
  | some c => c.reread?.map some

theorem chunkOfJson?_chunkToJson (oc : Option Chunk) :
    chunkOfJson? (chunkToJson oc) = rereadSlot? oc := by
  rcases oc with _ | c
  · rfl
  · rw [chunkToJson, chunkOfJson?, Chunk.ofJson?_toJson]
    · rfl
    · simp [Chunk.toJson]

theorem legible_toJson (savedAt : Instant) (chunks : List (Option Chunk)) :
    (toJson savedAt chunks).Legible := by
  have hchunk (oc : Option Chunk) : (chunkToJson oc).Legible := by
    rcases oc with _ | c
    · exact .null
    · exact c.legible_toJson
  refine legible_fields fun m hm => ?_
  simp only [List.mem_cons, List.not_mem_nil, or_false] at hm
  rcases hm with rfl | rfl | rfl
  · exact ⟨_, _, rfl, legible_nat currentVersion⟩
  · exact ⟨_, _, rfl, legible_text savedAt.textZulu⟩
  · exact ⟨_, _, rfl, legible_map hchunk chunks⟩

/-- Reading what was written is reading the time and the chunks. -/
theorem ofJson?_toJson (savedAt : Instant) (chunks : List (Option Chunk)) :
    ofJson? (toJson savedAt chunks) = (Instant.ofText? savedAt.textZulu).bind fun savedAt =>
      (chunks.mapM rereadSlot?).map fun chunks => ⟨currentVersion, savedAt, chunks⟩ := by
  have hfields : (toJson savedAt chunks).fields? fieldNames =
      some [some (.nat currentVersion), some (.text savedAt.textZulu),
        some (.array (chunks.map chunkToJson))] := by
    simp [toJson, fieldNames, Value.fields?, Value.named?, field, textOf?_written, Value.member?]
  have hversion : (Value.nat currentVersion).nat? UInt32.size = some currentVersion := by
    rw [nat?_nat, if_pos (by decide)]
  rw [ofJson?, hfields]
  simp only [Option.bind_eq_bind, Option.bind_some, hversion, text?_text, listOfJson?_array_map,
    chunkOfJson?_chunkToJson]
  cases Instant.ofText? savedAt.textZulu with
  | none => rfl
  | some at' => cases chunks.mapM rereadSlot? <;> rfl

/-- A chunk that is read was written. -/
theorem exists_reread?_of_mem {chunks read : List (Option Chunk)}
    (h : chunks.mapM rereadSlot? = some read) {d : Chunk} (hd : some d ∈ read) :
    ∃ c, some c ∈ chunks ∧ c.reread? = some d := by
  have hmem := List.mem_map_of_mem (f := some) hd
  rw [← mapM_eq_some_iff.1 h] at hmem
  obtain ⟨oc, hoc, hslot⟩ := List.mem_map.1 hmem
  rcases oc with _ | c
  · simp [rereadSlot?] at hslot
  · rw [rereadSlot?, Option.map_eq_some_iff] at hslot
    obtain ⟨e, he, hsome⟩ := hslot
    exact ⟨c, hoc, Option.some.inj hsome ▸ he⟩

/-- Where decoding succeeds on stored chunks, it gives the chunks as they are read again. -/
theorem decode_encode {savedAt : Instant} {chunks : List (Option Chunk)} {s : Snapshot}
    (h : decode (encode savedAt chunks) = .ok s) : chunks.mapM rereadSlot? = some s.chunks := by
  rw [decode, encode, read_octets_ofOctets_print (legible_toJson savedAt chunks), Option.bind_some,
    ofJson?_toJson] at h
  rcases htime : Instant.ofText? savedAt.textZulu with _ | time
  · simp only [htime, Option.bind_none, reduceCtorEq] at h
  · rcases hchunks : chunks.mapM rereadSlot? with _ | read
    · simp only [htime, hchunks, Option.bind_some, Option.map_none, reduceCtorEq] at h
    · simp only [htime, hchunks, Option.bind_some, Option.map_some, ne_eq, not_true_eq_false,
        if_false] at h
      split at h
      · simp only [reduceCtorEq] at h
      · rw [← Except.ok.inj h]

/-- Decoding gives verified chunks only. -/
theorem verify_of_firstInvalid?_eq_none {index : Nat} {chunks : List (Option Chunk)}
    (h : firstInvalid? index chunks = none) : ∀ c, some c ∈ chunks → c.verify = .ok () := by
  induction chunks generalizing index with
  | nil => intro c hc; cases hc
  | cons oc rest ih =>
    intro c hc
    rcases oc with _ | d
    · rcases List.mem_cons.1 hc with heq | hc
      · cases heq
      · exact ih h c hc
    · rw [firstInvalid?] at h
      rcases hd : d.verify with e | u
      · rw [hd] at h
        cases h
      · rw [hd] at h
        rcases List.mem_cons.1 hc with heq | hc
        · rw [Option.some.inj heq, hd]
        · exact ih h c hc

theorem verify_of_decode {bytes : Bytes} {s : Snapshot} (h : decode bytes = .ok s) :
    ∀ c, some c ∈ s.chunks → c.verify = .ok () := by
  unfold decode at h
  split at h
  · cases h
  · split at h
    · cases h
    · split at h
      · cases h
      · next hvalid => exact Except.ok.inj h ▸ verify_of_firstInvalid?_eq_none hvalid

end Snapshot

end CircuitCache
