import Mathlib
import CircuitCache.Proofs.Integrity
import CircuitCache.Proofs.Overwriting

/-!
# What a check decides

A slot takes a program when the keys agree and every entry of its mapping leads from an operation to
an instruction like it (`Slot.Takes`).  A batch that a chunk has slots for is patched exactly when
each slot takes its program, and then each sub-job is determined by its slot and its program
(`Slot.Gives`).  Otherwise the error is about the lowest slot that does not take its program, and
there about the first entry that leads nowhere, or about the key if there is none (`Slot.Refuses`).
-/

namespace CircuitCache

/-! ## Entries -/

namespace Entry

/-- The operation of the entry is there, with the tag, the operands and as many parameters as the
instruction. -/
def Leads (s : SubJob) (p : Program) (e : Entry) : Prop :=
  ∃ i op, s.instructions[e.instruction]? = some i ∧ p.unrolled[e.operation]? = some op ∧
    op.tag = i.tag ∧ op.operands = i.operands ∧ op.params.length = i.params.length

/-- What is wrong with an entry about an instruction that is there, and the error that says so. -/
inductive Fault (slot : ℕ) (s : SubJob) (p : Program) (e : Entry) : CacheError → Prop
  | outside (h : p.unrolled.length ≤ e.operation) :
    Fault slot s p e
      (.structuralMismatch slot (.operationOutOfRange e.operation p.unrolled.length))
  | signature {i : Instruction} {op : Operation} (hi : s.instructions[e.instruction]? = some i)
    (hop : p.unrolled[e.operation]? = some op) (h : op.signature ≠ i.signature) :
    Fault slot s p e (.structuralMismatch slot
      (.signatureChanged e.instruction e.operation op.signature i.signature))
  | arity {i : Instruction} {op : Operation} (hi : s.instructions[e.instruction]? = some i)
    (hop : p.unrolled[e.operation]? = some op) (hsignature : op.signature = i.signature)
    (h : op.params.length ≠ i.params.length) :
    Fault slot s p e
      (.arityMismatch slot e.instruction i.signature i.params.length op.params.length)

variable {slot : ℕ} {s : SubJob} {p : Program} {e : Entry}

theorem entryFault?_eq_none_iff_leads :
    Mapping.entryFault? slot p.unrolled s.instructions e = none ↔ e.Leads s p := by
  rw [Mapping.entryFault?_eq_none_iff]
  refine exists₂_congr fun i op => and_congr_right fun _ => and_congr_right fun _ => ?_
  simp only [Instruction.shape, Instruction.signature, Operation.shape, Operation.signature,
    Shape.mk.injEq, Signature.mk.injEq, and_assoc, eq_comm]

theorem entryFault?_eq_some_iff {i : Instruction} (hi : s.instructions[e.instruction]? = some i)
    {error : CacheError} :
    Mapping.entryFault? slot p.unrolled s.instructions e = some error ↔
      e.Fault slot s p error := by
  rw [Mapping.entryFault?, hi]
  rcases hop : p.unrolled[e.operation]? with _ | op
  · have houtside := List.getElem?_eq_none_iff.1 hop
    simp only [Option.some.injEq]
    constructor
    · rintro rfl
      exact .outside houtside
    · intro h
      cases h with
      | outside => rfl
      | signature _ hop' => simp [hop] at hop'
      | arity _ hop' => simp [hop] at hop'
  · have hinside := (List.getElem?_eq_some_iff.1 hop).1
    simp only
    constructor
    · intro h
      split_ifs at h with hsignature harity
      · obtain rfl := Option.some.inj h
        exact .signature hi hop (Ne.symm hsignature)
      · obtain rfl := Option.some.inj h
        exact .arity hi hop (not_not.1 hsignature).symm (Ne.symm harity)
    · intro h
      cases h with
      | outside houtside => omega
      | signature hi' hop' hsignature =>
        obtain rfl := Option.some.inj (hi.symm.trans hi')
        obtain rfl := Option.some.inj (hop.symm.trans hop')
        rw [if_pos (Ne.symm hsignature)]
      | arity hi' hop' hsignature harity =>
        obtain rfl := Option.some.inj (hi.symm.trans hi')
        obtain rfl := Option.some.inj (hop.symm.trans hop')
        rw [if_neg (not_not.2 hsignature.symm), if_pos (Ne.symm harity)]

end Entry

/-! ## Slots -/

namespace Slot

/-- The slot can be patched with the program. -/
structure Takes (x : Slot) (p : Program) : Prop where
  key : Key.ofProgram p = x.key
  entries : ∀ e ∈ x.mapping.entries, e.Leads x.subJob p

/-- The sub-job of the slot with the name and the parameters of the program, and everything else as
it was.  Each instruction with parameters has one entry, so all of them are replaced. -/
structure Gives (x : Slot) (p : Program) (y : SubJob) : Prop where
  name : y.name = p.name
  listing : y.listing = x.subJob.listing
  signatures : y.instructions.map Instruction.signature =
    x.subJob.instructions.map Instruction.signature
  written : ∀ e ∈ x.mapping.entries, ∃ i op, x.subJob.instructions[e.instruction]? = some i ∧
    p.unrolled[e.operation]? = some op ∧
    y.instructions[e.instruction]? = some { i with params := op.params.map Param.word }
  unwritten : ∀ (j : ℕ) (i : Instruction), x.subJob.instructions[j]? = some i → i.params = [] →
    y.instructions[j]? = some i
  exists_entry : ∀ (j : ℕ) (i : Instruction), x.subJob.instructions[j]? = some i → i.params ≠ [] →
    ∃! e, e ∈ x.mapping.entries ∧ e.instruction = j

/-- Why the slot cannot be patched with the program.  The key is compared after all entries. -/
inductive Refuses (slot : ℕ) (x : Slot) (p : Program) : CacheError → Prop
  | entry {before after : List Entry} {e : Entry} {error : CacheError}
    (hentries : x.mapping.entries = before ++ e :: after)
    (hbefore : ∀ d ∈ before, d.Leads x.subJob p) (h : e.Fault slot x.subJob p error) :
    Refuses slot x p error
  | key (hentries : ∀ e ∈ x.mapping.entries, e.Leads x.subJob p)
    (h : Key.ofProgram p ≠ x.key) :
    Refuses slot x p (.structuralMismatch slot (.structureChanged x.key (Key.ofProgram p)))

/-- The fault that the check of a single slot finds. -/
def fault? (slot : ℕ) (x : Slot) (p : Program) : Option CacheError :=
  (x.mapping.firstFault? slot x.subJob p).or <|
    if x.key = Key.ofProgram p then none
    else some (.structuralMismatch slot (.structureChanged x.key (Key.ofProgram p)))

variable {slot : ℕ} {x : Slot} {p : Program}

theorem firstFault?_eq_none_iff_leads : x.mapping.firstFault? slot x.subJob p = none ↔
    ∀ e ∈ x.mapping.entries, e.Leads x.subJob p := by
  rw [Mapping.firstFault?, List.findSome?_eq_none_iff]
  exact forall₂_congr fun e _ => Entry.entryFault?_eq_none_iff_leads

theorem takes_iff : x.Takes p ↔ x.skeleton.Accepts p := by
  rw [Skeleton.Accepts]
  show _ ↔ x.mapping.Fits x.subJob.shapes p.shapes ∧ x.key = Key.ofProgram p
  rw [← @Mapping.firstFault?_eq_none_iff 0, firstFault?_eq_none_iff_leads]
  exact ⟨fun h => ⟨h.entries, h.key.symm⟩, fun h => ⟨h.2.symm, h.1⟩⟩

theorem fault?_eq_none_iff : x.fault? slot p = none ↔ x.Takes p := by
  rw [fault?, Option.or_eq_none_iff, firstFault?_eq_none_iff_leads]
  constructor
  · rintro ⟨hentries, hkey⟩
    exact ⟨by simpa [eq_comm] using hkey, hentries⟩
  · intro h
    exact ⟨h.entries, if_pos h.key.symm⟩

theorem fault?_eq_some_iff (hcovers : x.mapping.Covers x.subJob.shapes) {error : CacheError} :
    x.fault? slot p = some error ↔ x.Refuses slot p error := by
  rw [fault?, Option.or_eq_some_iff, firstFault?_eq_none_iff_leads, Mapping.firstFault?,
    List.findSome?_eq_some_iff]
  constructor
  · rintro (⟨before, e, after, hentries, he, hbefore⟩ | ⟨hentries, hkey⟩)
    · obtain ⟨i, hi, -⟩ := hcovers.exists_instruction (e := e) (by simp [hentries])
      exact .entry hentries (fun d hd => Entry.entryFault?_eq_none_iff_leads.1 (hbefore d hd))
        ((Entry.entryFault?_eq_some_iff hi).1 he)
    · split_ifs at hkey with h
      obtain rfl := Option.some.inj hkey
      exact .key hentries (Ne.symm h)
  · intro h
    cases h with
    | @entry before after e error hentries hbefore hfault =>
      obtain ⟨i, hi, -⟩ := hcovers.exists_instruction (e := e) (by simp [hentries])
      exact .inl ⟨before, e, after, hentries, (Entry.entryFault?_eq_some_iff hi).2 hfault,
        fun d hd => Entry.entryFault?_eq_none_iff_leads.2 (hbefore d hd)⟩
    | key hentries hkey => exact .inr ⟨hentries, if_neg (Ne.symm hkey)⟩

/-- Writing gives what it should where the mapping covers the sub-job and leads to the program. -/
theorem gives_write (hcovers : x.mapping.Covers x.subJob.shapes) (h : x.Takes p) :
    x.Gives p (x.write p).subJob where
  name := rfl
  listing := rfl
  signatures := by
    have hshapes := congrArg (List.map Shape.signature) (x.mapping.shapes_write x.subJob p)
    rw [SubJob.shapes, SubJob.shapes, List.map_map, List.map_map] at hshapes
    exact hshapes
  written := by
    intro e he
    have hfits := (takes_iff.1 h).1
    obtain ⟨i, op, hi, hop, hshape, -⟩ := Mapping.exists_of_mem hcovers hfits he
    refine ⟨i, op, hi, hop, ?_⟩
    exact (Mapping.getElem?_write_of_mem hcovers hfits he hop).trans
      (congrArg some (Mapping.compiled_eq hshape))
  unwritten := by
    intro j i hi hparams
    have hj : j ∉ x.mapping.entries.map Entry.instruction := by
      rw [(Mapping.covers_shapes_iff.1 hcovers).1, SubJob.mem_patchablePositions, hi]
      simp [Instruction.isPatchable, hparams]
    exact (Mapping.getElem?_write_of_notMem hj).trans hi
  exists_entry := by
    intro j i hi hparams
    have hj : j ∈ x.mapping.entries.map Entry.instruction := by
      rw [(Mapping.covers_shapes_iff.1 hcovers).1, SubJob.mem_patchablePositions, hi]
      simpa [Instruction.isPatchable] using hparams
    obtain ⟨e, he, rfl⟩ := List.mem_map.1 hj
    exact ⟨e, ⟨he, rfl⟩, fun d hd =>
      List.inj_on_of_nodup_map hcovers.nodup_instructions hd.1 he hd.2⟩

end Slot

/-! ## Chunks -/

namespace Chunk

/-- The check of a batch goes through the slots one by one. -/
theorem checkSlots_cons (slot : ℕ) (x : Slot) (xs : List Slot) (p : Program) (ps : List Program) :
    checkSlots slot ((x :: xs).map Slot.subJob) ((x :: xs).map Slot.mapping)
        ((x :: xs).map Slot.key) (p :: ps) =
      match x.fault? slot p with
      | some e => .error e
      | none => checkSlots (slot + 1) (xs.map Slot.subJob) (xs.map Slot.mapping)
          (xs.map Slot.key) ps := by
  rw [List.map_cons, List.map_cons, List.map_cons, checkSlots, Slot.fault?]
  rcases x.mapping.firstFault? slot x.subJob p with _ | e
  · rw [Option.none_or]
    simp only
    split_ifs <;> rfl
  · rfl

/-- The check fails with what the lowest slot that refuses its program says. -/
theorem checkSlots_eq_error_iff {slot : ℕ} {xs : List Slot} {ps : List Program} {e : CacheError}
    (hxs : ∀ x ∈ xs, x.mapping.Covers x.subJob.shapes) :
    checkSlots slot (xs.map Slot.subJob) (xs.map Slot.mapping) (xs.map Slot.key) ps = .error e ↔
      ∃ (i : ℕ) (p : Program) (x : Slot), ps[i]? = some p ∧ xs[i]? = some x ∧
        x.Refuses (slot + i) p e ∧
        ∀ j < i, ∀ (q : Program) (y : Slot), ps[j]? = some q → xs[j]? = some y → y.Takes q := by
  induction xs generalizing slot ps with
  | nil => simp [checkSlots]
  | cons x xs ih =>
    cases ps with
    | nil => simp [checkSlots]
    | cons p ps =>
      rw [List.forall_mem_cons] at hxs
      have hfirst : (∀ (q : Program) (y : Slot), p = q → x = y → y.Takes q) ↔ x.Takes p :=
        ⟨fun h => h p x rfl rfl, by rintro h _ _ rfl rfl; exact h⟩
      -- The lowest slot is the first one, or the first one takes its program and it is the lowest
      -- of the others.
      rw [checkSlots_cons, ← Nat.or_exists_add_one]
      simp only [List.getElem?_cons_zero, List.getElem?_cons_succ, Option.some.injEq,
        exists_and_left, exists_eq_left', Nat.forall_lt_succ_left, Nat.add_zero, Nat.not_lt_zero,
        false_implies, implies_true, and_true, ← Nat.add_assoc, hfirst]
      rcases hfault : x.fault? slot p with _ | e'
      · have htakes := Slot.fault?_eq_none_iff.1 hfault
        have hnot : ¬x.Refuses slot p e := by
          rw [← Slot.fault?_eq_some_iff hxs.1, hfault]
          simp
        simp only [ih hxs.2, htakes, hnot, false_or, true_and, exists_and_left,
          Nat.add_right_comm slot 1]
      · have htakes : ¬x.Takes p := by
          rw [← @Slot.fault?_eq_none_iff slot, hfault]
          simp
        simp only [htakes, false_and, and_false, exists_false, or_false,
          ← Slot.fault?_eq_some_iff hxs.1, hfault, Option.some.injEq, Except.error.injEq]

/-- Where there are slots enough, a patch fails when the check does. -/
theorem patchCopy_ofSlots_eq_error_iff {backend : String} {xs : List Slot} {index : ℕ}
    {ps : List Program} (h : ps.length ≤ xs.length) {e : CacheError} :
    (ofSlots backend xs).patchCopy index ps = .error e ↔
      checkSlots 0 (xs.map Slot.subJob) (xs.map Slot.mapping) (xs.map Slot.key) ps = .error e := by
  rw [patchCopy_eq_map, patchInPlace_ofSlots, if_neg (not_lt.2 h)]
  rcases checkSlots 0 (xs.map Slot.subJob) (xs.map Slot.mapping) (xs.map Slot.key) ps with e' | u
    <;> simp [Except.map]

/-- The slots and their programs, by position. -/
theorem forall_accepts_iff {xs : List Slot} {ps : List Program} (h : ps.length ≤ xs.length) :
    (∀ xp ∈ xs.zip ps, xp.1.skeleton.Accepts xp.2) ↔
      ∀ (i : ℕ) (p : Program), ps[i]? = some p → ∃ x : Slot, xs[i]? = some x ∧ x.Takes p := by
  constructor
  · intro hall i p hp
    have hi : i < xs.length := (List.getElem?_eq_some_iff.1 hp).1.trans_le h
    have hx : xs[i]? = some xs[i] := List.getElem?_eq_getElem hi
    have hmem : (xs[i], p) ∈ xs.zip ps :=
      List.mem_of_getElem? (List.getElem?_zip_eq_some.2 ⟨hx, hp⟩)
    exact ⟨xs[i], hx, Slot.takes_iff.2 (hall _ hmem)⟩
  · rintro hall ⟨x, p⟩ hmem
    obtain ⟨i, hi⟩ := List.mem_iff_getElem?.1 hmem
    obtain ⟨hx, hp⟩ := List.getElem?_zip_eq_some.1 hi
    obtain ⟨y, hy, htakes⟩ := hall i p hp
    obtain rfl := Option.some.inj (hx.symm.trans hy)
    exact Slot.takes_iff.1 htakes

end Chunk

/-! ## Patching a copy -/

namespace Store

theorem patchCopy_fst {s : Store} {index : ℕ} {c : Chunk} (hc : s.chunk? index = some c)
    (ps : List Program) : (s.patchCopy index ps).1 =
      (c.patchCopy index ps).map fun subJobs => ⟨index, c.job.backend, subJobs, false⟩ := by
  rw [patchCopy, hc]
  simp only
  rcases c.patchCopy index ps with e | subJobs <;> rfl

theorem patchCopy_fst_eq_ok_iff {s : Store} {index : ℕ} {backend : String} {xs : List Slot}
    (hc : s.chunk? index = some (Chunk.ofSlots backend xs)) {ps : List Program} {r : Patched} :
    (s.patchCopy index ps).1 = .ok r ↔ ps.length ≤ xs.length ∧
      (∀ (i : ℕ) (p : Program), ps[i]? = some p → ∃ x : Slot, xs[i]? = some x ∧ x.Takes p) ∧
      r = ⟨index, backend, (List.zipWith Slot.write xs ps).map Slot.subJob, false⟩ := by
  rw [patchCopy_fst hc]
  constructor
  · intro hr
    rcases hpatch : (Chunk.ofSlots backend xs).patchCopy index ps with e | subJobs
    · simp [hpatch, Except.map] at hr
    · obtain ⟨hle, haccepts, rfl⟩ := Chunk.patchCopy_ofSlots_eq_ok_iff.1 hpatch
      rw [hpatch, Except.map, Except.ok.injEq] at hr
      exact ⟨hle, (Chunk.forall_accepts_iff hle).1 haccepts, hr.symm⟩
  · rintro ⟨hle, htakes, rfl⟩
    have haccepts := (Chunk.forall_accepts_iff hle).2 htakes
    rw [Chunk.patchCopy_ofSlots_eq_ok_iff.2 ⟨hle, haccepts, rfl⟩]
    rfl

/-- A chunk that passes verification is patched with a batch exactly when there is a slot for every
program and each slot takes its program.  Then each sub-job is what its slot gives with its program,
whatever else is in the batch.  A batch with a slot for every program fails with what the lowest slot
that refuses its program says. -/
theorem patchCopy_of_verify {s : Store} {index : ℕ} {c : Chunk} (hc : s.chunk? index = some c)
    (hverify : c.verify = .ok ()) (ps : List Program) :
    ((∃ r, (s.patchCopy index ps).1 = .ok r) ↔ ps.length ≤ c.slotCount ∧
      ∀ (i : ℕ) (p : Program), ps[i]? = some p → ∃ x : Slot, c.slots[i]? = some x ∧ x.Takes p) ∧
    (∀ r, (s.patchCopy index ps).1 = .ok r →
      r.chunk = index ∧ r.backend = c.job.backend ∧ r.isBorrowed = false ∧
      r.subJobs.length = ps.length ∧
      (∀ (i : ℕ) (p : Program), ps[i]? = some p → ∃ (x : Slot) (y : SubJob),
        c.slots[i]? = some x ∧ r.subJobs[i]? = some y ∧ x.Gives p y) ∧
      ∀ (others : List Program) (t : Patched) (i : ℕ), (s.patchCopy index others).1 = .ok t →
        others[i]? = ps[i]? → t.subJobs[i]? = r.subJobs[i]?) ∧
    (ps.length ≤ c.slotCount → ∀ e, (s.patchCopy index ps).1 = .error e ↔
      ∃ (i : ℕ) (p : Program) (x : Slot), ps[i]? = some p ∧ c.slots[i]? = some x ∧
        x.Refuses i p e ∧
        ∀ j < i, ∀ (q : Program) (y : Slot), ps[j]? = some q → c.slots[j]? = some y →
          y.Takes q) := by
  obtain ⟨backend, xs, rfl, -, hxs⟩ := (Chunk.sound_of_verify hverify).exists_slots
  rw [Chunk.slots_ofSlots, Chunk.slotCount_ofSlots]
  refine ⟨?_, fun r hr => ?_, fun hle e => ?_⟩
  · simp only [patchCopy_fst_eq_ok_iff hc, exists_and_left, exists_eq, and_true]
  · obtain ⟨hle, htakes, rfl⟩ := (patchCopy_fst_eq_ok_iff hc).1 hr
    refine ⟨rfl, rfl, rfl, ?_, fun i p hp => ?_, fun others t i ht hi => ?_⟩
    · simp [hle]
    · obtain ⟨x, hx, hxp⟩ := htakes i p hp
      have hwritten : (List.zipWith Slot.write xs ps)[i]? = some (x.write p) := by
        rw [List.getElem?_zipWith, hx, hp]
      refine ⟨x, (x.write p).subJob, hx, ?_, Slot.gives_write (hxs x (List.mem_of_getElem? hx)) hxp⟩
      rw [List.getElem?_map, hwritten, Option.map_some]
    · obtain ⟨-, -, rfl⟩ := (patchCopy_fst_eq_ok_iff hc).1 ht
      simp only [List.getElem?_map, List.getElem?_zipWith, hi]
  · have herror : (s.patchCopy index ps).1 = .error e ↔
        (Chunk.ofSlots backend xs).patchCopy index ps = .error e := by
      rw [patchCopy_fst hc]
      rcases (Chunk.ofSlots backend xs).patchCopy index ps with e' | subJobs <;> simp [Except.map]
    rw [herror, Chunk.patchCopy_ofSlots_eq_error_iff hle, Chunk.checkSlots_eq_error_iff hxs]
    simp only [Nat.zero_add]

end Store

/-! ## An example -/

namespace Example

/-- The rotation of another address. -/
def movedRotation : Program := .ofOperations "stray" [⟨.rz, [1], [.int 2]⟩]

/-- The chunk of the rotation in a store. -/
def rotationStore : Store :=
  (Store.opened {} .none).run [(noon, .insert 0 rotationJob [rotation]),
    (noon, .ensureCapacity 0 2)]

/-- The chunk patched with the other angle and the first one. -/
def bothAngles : Patched :=
  ⟨0, "device", [⟨"other", [⟨.rz, [0], [.ofInt 2]⟩], none⟩, ⟨"turn", [⟨.rz, [0], [.ofInt 1]⟩], none⟩],
    false⟩

/-- Both slots take other angles, and the second one refuses another address. -/
theorem patchCopy_rotationChunk :
    rotationStore.chunk? 0 = some rotationChunk ∧ rotationChunk.verify = .ok () ∧
    (∃ (x : Slot) (y : SubJob), rotationChunk.slots[0]? = some x ∧
      bothAngles.subJobs[0]? = some y ∧ x.Gives otherRotation y) ∧
    ∃ (i : ℕ) (p : Program) (x : Slot), [otherRotation, movedRotation][i]? = some p ∧
      rotationChunk.slots[i]? = some x ∧
      x.Refuses i p (.structuralMismatch 1 (.signatureChanged 0 0 ⟨.rz, [1]⟩ ⟨.rz, [0]⟩)) := by
  have hc : rotationStore.chunk? 0 = some rotationChunk := rfl
  have hverify : rotationChunk.verify = .ok () := by decide +kernel
  have hpatched : (rotationStore.patchCopy 0 [otherRotation, rotation]).1 = .ok bothAngles := by
    decide +kernel
  have hrefused : (rotationStore.patchCopy 0 [otherRotation, movedRotation]).1 =
      .error (.structuralMismatch 1 (.signatureChanged 0 0 ⟨.rz, [1]⟩ ⟨.rz, [0]⟩)) := by
    decide +kernel
  obtain ⟨-, -, -, -, hgives, -⟩ := (Store.patchCopy_of_verify hc hverify _).2.1 _ hpatched
  obtain ⟨i, p, x, hp, hx, hrefuses, -⟩ :=
    ((Store.patchCopy_of_verify hc hverify _).2.2 (by decide) _).1 hrefused
  exact ⟨hc, hverify, hgives 0 otherRotation rfl, i, p, x, hp, hx, hrefuses⟩

end Example

end CircuitCache
