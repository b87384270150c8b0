import Mathlib
import CircuitCache.Proofs.Settled
import CircuitCache.Proofs.Steps

/-!
# What survives a restart

Only an insert that succeeds writes the chunks of a store to its backing.  So what a backing in
memory holds at any point of a run was put there from outside, or is the stored form of all chunks
as they were right after the last such insert (`Origin`).  That is what the store reloads, and what
a new store over the same backing begins with.  A saved chunk comes back exactly when the numerals
of its finite parameters are read as these parameters (`Origin.ReadsBack`).
-/

namespace CircuitCache

/-- Where the bytes of a backing come from. -/
inductive Origin where
  /-- They were there at first, or were put there instead of what was saved. -/
  | outside (content : Option Bytes)
  /-- The store saved these chunks when an insert succeeded. -/
  | inserted (now : Instant) (chunks : List (Option Chunk))

namespace Origin

/-- The bytes themselves. -/
def bytes : Origin → Option Bytes
  | outside content => content
  | inserted now chunks => some (Snapshot.encode now chunks)

/-- The chunks that a store loads: none from bytes that are absent or cannot be decoded, and those
that were saved, with each word as it is read again. -/
def chunks : Origin → List (Option Chunk)
  | outside none => []
  | outside (some bytes) =>
    match Snapshot.decode bytes with
    | .ok s => s.chunks
    | .error _ => []
  | inserted _ chunks => chunks.map (Option.map Chunk.settled)

/-- The chunks that a store would load if all words came back, with those that are not numbers taken
as one. -/
def unchanged : Origin → List (Option Chunk)
  | outside content => (outside content).chunks
  | inserted _ chunks => chunks.map (Option.map Chunk.canonical)

/-- Every finite parameter that was saved is read as it is written. -/
def ReadsBack : Origin → Prop
  | outside _ => True
  | inserted _ chunks => Snapshot.AllReadBack chunks

theorem chunks_eq_unchanged_iff {o : Origin} : o.chunks = o.unchanged ↔ o.ReadsBack := by
  cases o with
  | outside content => simp [unchanged, ReadsBack]
  | inserted now chunks => exact Snapshot.map_settled_eq_iff

/-- What was saved can be decoded. -/
def IsStorable : Origin → Prop
  | outside _ => True
  | inserted now chunks => now.IsValid ∧ AllSound (fun _ => True) Skeleton.IsStorable chunks

theorem chunks_memory {o : Origin} (h : o.IsStorable) :
    (Backing.memory o.bytes).chunks = o.chunks := by
  cases o with
  | outside content => cases content <;> rfl
  | inserted now chunks =>
    simp only [Backing.chunks, Backing.load, bytes]
    rw [Snapshot.decode_encode_of_isStorable h.2 h.1]
    rfl

end Origin

namespace Store

/-! ## The last write -/

/-- Where the bytes come from after a call. -/
def originAfter (s : Store) (o : Origin) (now : Instant) (a : Action) : Origin :=
  match a, s.act now a with
  | .insert .., (.changed (.ok ()), t) => .inserted now t.chunks
  | .overwrite bytes, _ => .outside (some bytes)
  | _, _ => o

/-- Where the bytes come from after calls at given times. -/
def origin (s : Store) (o : Origin) : List (Instant × Action) → Origin
  | [] => o
  | (now, a) :: rest => origin (s.act now a).2 (s.originAfter o now a) rest

/-- One call keeps the bytes, or writes them anew. -/
theorem backing_act {s : Store} {o : Origin} (h : s.backing = .memory o.bytes) (now : Instant)
    (a : Action) : (s.act now a).2.backing = .memory (s.originAfter o now a).bytes := by
  cases a with
  | insert index job ps =>
    rcases s.insert_cases now index job ps with ⟨e, heq⟩ | ⟨c, -, -, heq⟩
    · simp only [originAfter, act, heq]
      exact h
    · simp only [originAfter, act, heq]
      show (s.backing.save ((s.inserted index c).toBytes now)).2 = _
      rw [h]
      rfl
  | overwrite bytes =>
    simp only [originAfter, act, overwrite, h]
    rfl
  | clear => simp [originAfter, act, clear, h]
  | reload => simp [originAfter, act, reload, h]
  | restart => simp [originAfter, act, restart, opened, reload, h]
  | lookup index ps => simp [originAfter, act, (s.sameSetting_lookup index ps).backing, h]
  | ensureCapacity index count =>
    simp [originAfter, act, (s.sameSetting_ensureCapacity index count).backing, h]
  | patch index ps => simp [originAfter, act, (s.sameSetting_patch index ps).backing, h]
  | patchCopy index ps => simp [originAfter, act, (s.sameSetting_patchCopy index ps).backing, h]
  | patchInPlace index ps =>
    simp [originAfter, act, (s.sameSetting_patchInPlace index ps).backing, h]
  | loadBytes bytes => simp [originAfter, act, (s.sameSetting_loadBytes bytes).backing, h]
  | cycle => simp [originAfter, act, (s.sameSetting_loadBytes (s.toBytes now)).backing, h]

theorem backing_run {s : Store} {o : Origin} (h : s.backing = .memory o.bytes)
    (calls : List (Instant × Action)) :
    (s.run calls).backing = .memory (s.origin o calls).bytes := by
  induction calls generalizing s o with
  | nil => exact h
  | cons call rest ih => exact ih (backing_act h call.1 call.2)

/-! ## What was saved can be read -/

theorem isStorable_originAfter {s : Store} (h : s.Holds (fun _ => True) Skeleton.IsStorable)
    {o : Origin} (ho : o.IsStorable) {now : Instant} (hnow : now.IsValid) {a : Action}
    (ha : a.FitsWords) : (s.originAfter o now a).IsStorable := by
  have hnext := h.act ha.trusted now
  unfold originAfter
  split
  · next heq =>
    rw [heq] at hnext
    exact ⟨hnow, hnext.chunks⟩
  · trivial
  · exact ho

theorem isStorable_origin {s : Store} (h : s.Holds (fun _ => True) Skeleton.IsStorable)
    {o : Origin} (ho : o.IsStorable) {calls : List (Instant × Action)}
    (hcalls : ∀ call ∈ calls, call.1.IsValid ∧ call.2.FitsWords) :
    (s.origin o calls).IsStorable := by
  induction calls generalizing s o with
  | nil => exact ho
  | cons call rest ih =>
    rw [List.forall_mem_cons] at hcalls
    obtain ⟨⟨hnow, ha⟩, hrest⟩ := hcalls
    exact ih (h.act ha.trusted call.1) (isStorable_originAfter h ho hnow ha) hrest

/-- After every run over a backing in memory, the bytes are those from outside, or the stored form
of all chunks as they were right after the last insert that succeeded.  Reloading, or opening a new
store with whatever configuration, yields those chunks, with each word as it is read again.  They
are exactly those chunks if and only if every finite parameter that was saved is read as it is
written; parameters of few digits are. -/
theorem reload_exact_iff_readsBack (config : Config) (content : Option Bytes)
    (calls : List (Instant × Action)) :
    let s := (opened config (.memory content)).run calls
    let o := (opened config (.memory content)).origin (.outside content) calls
    s.backing = .memory o.bytes ∧
      ((∀ call ∈ calls, call.1.IsValid ∧ call.2.FitsWords) →
        (s.reload = { s with chunks := o.chunks } ∧
          ∀ other, opened other s.backing = ⟨other, o.chunks, {}, s.backing⟩) ∧
        ((s.reload = { s with chunks := o.unchanged } ∧
          ∀ other, opened other s.backing = ⟨other, o.unchanged, {}, s.backing⟩) ↔ o.ReadsBack)) ∧
      ∀ x : Binary64, x.isFinite = true → x.numeral.parts.1 < 2 ^ 53 →
        x.numeral.parts.2.natAbs ≤ 22 → x.ReadsBack := by
  intro s o
  have hbacking : s.backing = .memory o.bytes := backing_run rfl calls
  refine ⟨hbacking, fun hcalls => ?_, fun x => Binary64.readsBack_of_short⟩
  have hopened : (opened config (.memory content)).Holds (fun _ => True) Skeleton.IsStorable :=
    holds_opened fun bytes _ => soundBytes_isStorable bytes
  have ho : o.IsStorable := isStorable_origin hopened (o := .outside content) trivial hcalls
  have hchunks : s.backing.chunks = o.chunks := by
    rw [hbacking]
    exact Origin.chunks_memory ho
  have hreload : s.reload = { s with chunks := o.chunks } := by rw [reload, hchunks]
  have hopen (other : Config) : opened other s.backing = ⟨other, o.chunks, {}, s.backing⟩ := by
    rw [opened, reload, hchunks]
  refine ⟨⟨hreload, hopen⟩, ?_⟩
  rw [← Origin.chunks_eq_unchanged_iff]
  constructor
  · intro h
    exact congrArg Store.chunks (hreload.symm.trans h.1)
  · intro h
    rw [← h]
    exact ⟨hreload, hopen⟩

end Store

namespace Example

/-- The job of the rotation by a word. -/
def jobOf (x : Binary64) : Job := ⟨"device", [⟨"turn", [⟨.rz, [0], [x]⟩], none⟩]⟩

/-- The chunk of the rotation, as it is inserted with such a job. -/
def singleRotation (x : Binary64) : Chunk :=
  .ofSlots "device" [⟨⟨"turn", [⟨.rz, [0], [x]⟩], none⟩, ⟨[⟨0, 0⟩]⟩, Key.ofProgram rotation⟩]

/-- The word nearest to 51.248178375505404, which is how it is written. -/
def angle : Binary64 := ⟨0x40499FC44F1B2F60⟩

/-- Chunk 0 is given a second slot, and inserting chunk 1 saves both; an insert that fails and
clearing do not matter.  The word nearest to a tenth comes back. -/
theorem reload_after_clear :
    let tenth : Binary64 := ⟨0x3FB999999999999A⟩
    let calls := [(noon, .insert 0 rotationJob [rotation]), (noon, .ensureCapacity 0 2),
      (noon, .insert 1 (jobOf tenth) [rotation]), (noon, .insert 2 rotationJob []),
      (noon, Action.clear)]
    let s := (Store.opened {} (.memory none)).run calls
    (∀ call ∈ calls, call.1.IsValid ∧ call.2.FitsWords) ∧ s.chunks = [] ∧
      s.reload.chunks = [some rotationChunk, some (singleRotation tenth)] ∧
      (tenth.isFinite = true ∧ tenth.numeral.parts = (1, -1) ∧ tenth.ReadsBack) := by
  intro tenth calls s
  have hrotation : ∀ p ∈ [rotation], p.unrolled.length ≤ UInt64.size := by
    intro p hp
    rw [List.mem_singleton.1 hp]
    decide
  have hcalls : ∀ call ∈ calls, call.1.IsValid ∧ call.2.FitsWords := by
    simp only [calls, List.forall_mem_cons]
    exact ⟨⟨isValid_noon, hrotation⟩, ⟨isValid_noon, trivial⟩, ⟨isValid_noon, hrotation⟩,
      ⟨isValid_noon, by simp [Action.FitsWords]⟩, ⟨isValid_noon, trivial⟩, by simp⟩
  obtain ⟨-, hreload, hshort⟩ := Store.reload_exact_iff_readsBack {} none calls
  have hfinite : tenth.isFinite = true := by decide +kernel
  have hparts : tenth.numeral.parts = (1, -1) := by decide +kernel
  refine ⟨hcalls, rfl, ?_, hfinite, hparts, ?_⟩
  · rw [(hreload hcalls).1.1]
    decide +kernel
  · exact hshort tenth hfinite (by rw [hparts]; decide) (by rw [hparts]; decide)

/-- The word after `angle` comes back where `angle` was saved, so the chunk list is not the one that
was saved. -/
theorem reload_moves_angle :
    let s := (Store.opened {} (.memory none)).run [(noon, .insert 0 (jobOf angle) [rotation])]
    s.chunks = [some (singleRotation angle)] ∧
      s.reload.chunks = [some (singleRotation ⟨angle.bits + 1⟩)] ∧
      s.reload.chunks ≠ s.chunks.map (Option.map Chunk.canonical) := by
  decide +kernel

end Example

end CircuitCache
