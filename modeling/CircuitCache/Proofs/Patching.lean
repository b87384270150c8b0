import Mathlib
import CircuitCache.Chunk.Patch
import CircuitCache.Proofs.Pairing

/-!
# What a patch checks and writes

The entries of a mapping pass the check when each leads from an operation to an instruction of the
same shape (`Mapping.Fits`).  Writing then changes parameters and nothing else.  Along the mapping of
a pairing, what is written is the program compiled in that order, whatever parameters stood there.
-/

namespace CircuitCache

/-- The instruction that carries out an operation. -/
def Operation.compiled (op : Operation) : Instruction := ⟨op.tag, op.operands, op.words⟩

theorem Operation.shape_compiled (op : Operation) : op.compiled.shape = op.shape := by
  rw [Instruction.shape, Operation.shape, Operation.compiled, Operation.words, List.length_map]
  rfl

/-- The instructions of a program when operation `order[i]` comes at position `i`. -/
def Program.compiledIn (p : Program) (order : List Nat) : List Instruction :=
  order.filterMap fun b => p.unrolled[b]?.map Operation.compiled

namespace IsPairing

variable {p : Program} {target : List Shape} {order : List Nat}

theorem exists_operation (h : IsPairing p.shapes target order) {i b : Nat}
    (hb : order[i]? = some b) : ∃ op, p.unrolled[b]? = some op := by
  have hlt := List.mem_range.1 (h.perm.mem_iff.1 (List.mem_of_getElem? hb))
  rw [Program.shapes, List.length_map] at hlt
  exact ⟨_, List.getElem?_eq_getElem hlt⟩

theorem getElem?_compiledIn (h : IsPairing p.shapes target order) (i : Nat) :
    (p.compiledIn order)[i]? = order[i]?.bind fun b => p.unrolled[b]?.map Operation.compiled := by
  have hall : ∀ b ∈ order, ∃ op, p.unrolled[b]? = some op := fun b hb => by
    obtain ⟨j, hj⟩ := List.mem_iff_getElem?.1 hb
    exact h.exists_operation hj
  clear h
  rw [Program.compiledIn]
  induction order generalizing i with
  | nil => rfl
  | cons b rest ih =>
    obtain ⟨op, hop⟩ := hall b List.mem_cons_self
    have hb : p.unrolled[b]?.map Operation.compiled = some op.compiled := by rw [hop]; rfl
    rw [List.filterMap_cons, hb]
    cases i with
    | zero => rw [List.getElem?_cons_zero, List.getElem?_cons_zero, Option.bind_some, hb]
    | succ i =>
      rw [List.getElem?_cons_succ, List.getElem?_cons_succ]
      exact ih i fun c hc => hall c (List.mem_cons_of_mem b hc)

/-- Every instruction has the shape of the operation it came from. -/
theorem exists_instruction {s : SubJob} (h : IsPairing p.shapes s.shapes order) {i b : Nat}
    (hb : order[i]? = some b) : ∃ instruction op, s.instructions[i]? = some instruction ∧
      p.unrolled[b]? = some op ∧ instruction.shape = op.shape := by
  obtain ⟨op, hop⟩ := h.exists_operation hb
  have hshape := h.getElem?_source hb
  rw [Program.shapes, List.getElem?_map, hop, SubJob.shapes, List.getElem?_map] at hshape
  obtain ⟨instruction, hi, heq⟩ := Option.map_eq_some_iff.1 hshape.symm
  exact ⟨instruction, op, hi, hop, heq⟩

end IsPairing

namespace Mapping

/-- Every entry leads from an operation to an instruction of the same shape. -/
def Fits (m : Mapping) (target source : List Shape) : Prop :=
  ∀ e ∈ m.entries, ∃ x, target[e.instruction]? = some x ∧ source[e.operation]? = some x

theorem fits_ofOrder {source target : List Shape} {order : List Nat}
    (h : IsPairing source target order) : (ofOrder source order).Fits target source := by
  intro e he
  obtain ⟨hget, hany⟩ := mem_ofOrder.1 he
  obtain ⟨x, hx, -⟩ := (Option.any_eq_true ..).1 hany
  exact ⟨x, h.getElem?_source hget ▸ hx, hx⟩

/-! ## Checking -/

theorem entryFault?_eq_none_iff {slot : Nat} {ops : List Operation} {is : List Instruction}
    {e : Entry} :
    entryFault? slot ops is e = none ↔
      ∃ i op, is[e.instruction]? = some i ∧ ops[e.operation]? = some op ∧ i.shape = op.shape := by
  unfold entryFault?
  rcases is[e.instruction]? with _ | i
  · simp
  · rcases ops[e.operation]? with _ | op
    · simp
    · by_cases hsig : i.signature = op.signature
      · by_cases hlen : i.params.length = op.params.length <;>
          simp [Instruction.shape, Operation.shape, hsig, hlen]
      · simp [Instruction.shape, Operation.shape, hsig]

/-- No entry is at fault exactly when the mapping fits. -/
theorem firstFault?_eq_none_iff {slot : Nat} {m : Mapping} {s : SubJob} {p : Program} :
    m.firstFault? slot s p = none ↔ m.Fits s.shapes p.shapes := by
  rw [firstFault?, List.findSome?_eq_none_iff]
  refine forall₂_congr fun e _ => ?_
  rw [entryFault?_eq_none_iff, SubJob.shapes, Program.shapes, List.getElem?_map, List.getElem?_map]
  simp only [Option.map_eq_some_iff]
  constructor
  · rintro ⟨i, op, hi, hop, h⟩
    exact ⟨op.shape, ⟨i, hi, h⟩, ⟨op, hop, rfl⟩⟩
  · rintro ⟨x, ⟨i, hi, rfl⟩, ⟨op, hop, h⟩⟩
    exact ⟨i, op, hi, hop, h.symm⟩

/-! ## Writing -/

theorem getElem?_writeEntry (ops : List Operation) (is : List Instruction) (e : Entry) (j : Nat) :
    (writeEntry ops is e)[j]? =
      if e.instruction = j then
        is[j]?.map fun i =>
          (ops[e.operation]?.map fun op => { i with params := overwrite i.params op.words }).getD i
      else is[j]? := by
  unfold writeEntry
  rcases ops[e.operation]? with _ | op
  · simp
  · simp only [List.getElem?_modify, Option.map_some, Option.getD_some]
    split <;> simp

/-- Entries about other instructions leave one as it is. -/
theorem getElem?_foldl_writeEntry_of_notMem {ops : List Operation} {entries : List Entry} {j : Nat}
    (h : j ∉ entries.map Entry.instruction) (is : List Instruction) :
    (entries.foldl (writeEntry ops) is)[j]? = is[j]? := by
  induction entries generalizing is with
  | nil => rfl
  | cons e rest ih =>
    rw [List.map_cons, List.mem_cons, not_or] at h
    rw [List.foldl_cons, ih h.2, getElem?_writeEntry, if_neg (Ne.symm h.1)]

/-- The only entry about an instruction decides its parameters. -/
theorem getElem?_foldl_writeEntry_of_mem {ops : List Operation} {entries : List Entry}
    (hnodup : (entries.map Entry.instruction).Nodup) {e : Entry} (he : e ∈ entries)
    {op : Operation} (hop : ops[e.operation]? = some op) (is : List Instruction) :
    (entries.foldl (writeEntry ops) is)[e.instruction]? =
      is[e.instruction]?.map fun i => { i with params := overwrite i.params op.words } := by
  induction entries generalizing is with
  | nil => cases he
  | cons d rest ih =>
    rw [List.map_cons, List.nodup_cons] at hnodup
    rw [List.foldl_cons]
    rcases List.mem_cons.1 he with rfl | he
    · rw [getElem?_foldl_writeEntry_of_notMem hnodup.1, getElem?_writeEntry, if_pos rfl, hop]
      rfl
    · have hne : d.instruction ≠ e.instruction := fun h =>
        hnodup.1 (h ▸ List.mem_map_of_mem he)
      rw [ih hnodup.2 he, getElem?_writeEntry, if_neg hne]

/-- Writing changes no shape, not even where the words are too few or too many. -/
theorem map_shape_writeEntry (ops : List Operation) (is : List Instruction) (e : Entry) :
    (writeEntry ops is e).map Instruction.shape = is.map Instruction.shape := by
  refine List.ext_getElem? fun j => ?_
  rw [List.getElem?_map, List.getElem?_map, getElem?_writeEntry]
  by_cases hj : e.instruction = j
  · rw [if_pos hj]
    rcases is[j]? with _ | i
    · rfl
    · rcases ops[e.operation]? with _ | op
      · rfl
      · simp [Instruction.shape, Instruction.signature, length_overwrite]
  · rw [if_neg hj]

theorem shapes_write (m : Mapping) (s : SubJob) (p : Program) :
    (m.write s p).shapes = s.shapes := by
  show (m.entries.foldl (writeEntry p.unrolled) s.instructions).map Instruction.shape = s.shapes
  rw [SubJob.shapes]
  induction m.entries generalizing s with
  | nil => rfl
  | cons e rest ih =>
    rw [List.foldl_cons]
    exact (ih { s with instructions := writeEntry p.unrolled s.instructions e }).trans
      (map_shape_writeEntry p.unrolled s.instructions e)

/-- An instruction without parameters carries out every operation of its shape. -/
theorem eq_compiled_of_not_isParameterized {i : Instruction} {op : Operation}
    (hshape : i.shape = op.shape) (h : op.shape.isParameterized = false) : i = op.compiled := by
  have hop : op.params = [] := by
    rw [op.isParameterized_shape, Operation.isParameterized] at h
    simpa using h
  have hi : i.params = [] := by
    rw [← hshape, i.isParameterized_shape, Instruction.isPatchable] at h
    simpa using h
  obtain ⟨tag, operands, params⟩ := i
  simp only [Instruction.shape, Operation.shape, Instruction.signature, Operation.signature,
    Shape.mk.injEq, Signature.mk.injEq] at hshape
  rw [Operation.compiled, Operation.words, hop, ← hshape.1.1, ← hshape.1.2]
  exact congrArg (Instruction.mk tag operands) hi

/-- With its parameters, an instruction carries out every operation of its shape. -/
theorem compiled_eq {i : Instruction} {op : Operation} (hshape : i.shape = op.shape) :
    op.compiled = { i with params := op.words } := by
  have hsignature : i.signature = op.signature := congrArg Shape.signature hshape
  rw [Operation.compiled, show i.tag = op.tag from congrArg Signature.tag hsignature,
    show i.operands = op.operands from congrArg Signature.operands hsignature]

/-- What is written over the parameters of an instruction is long enough. -/
theorem overwrite_eq_compiled {i : Instruction} {op : Operation} (hshape : i.shape = op.shape) :
    { i with params := overwrite i.params op.words } = op.compiled := by
  have harity : i.params.length = op.words.length := by
    rw [Operation.words, List.length_map]
    exact congrArg Shape.arity hshape
  rw [overwrite_eq harity, compiled_eq hshape]

/-- Along the mapping of a pairing, every instruction that carries parameters is written, and the
result is the program compiled in that order. -/
theorem write_ofOrder {p : Program} {s : SubJob} {order : List Nat}
    (h : IsPairing p.shapes s.shapes order) :
    (ofOrder p.shapes order).write s p = ⟨p.name, p.compiledIn order, s.listing⟩ := by
  have hinstructions : (ofOrder p.shapes order).entries.foldl (writeEntry p.unrolled)
      s.instructions = p.compiledIn order := by
    refine List.ext_getElem? fun j => ?_
    rw [h.getElem?_compiledIn]
    by_cases hj : j ∈ (ofOrder p.shapes order).entries.map Entry.instruction
    · -- An instruction with an entry takes its parameters from the operation it came from.
      obtain ⟨e, he, rfl⟩ := List.mem_map.1 hj
      obtain ⟨hb, -⟩ := mem_ofOrder.1 he
      obtain ⟨i, op, hi, hop, hshape⟩ := h.exists_instruction hb
      have hnodup := (pairwise_instruction_ofOrder p.shapes order).imp fun h => h.ne
      rw [getElem?_foldl_writeEntry_of_mem hnodup he hop, hi, hb, Option.bind_some, hop,
        Option.map_some, Option.map_some, overwrite_eq_compiled hshape]
    · -- One without has none, so it carries out its operation already.
      rw [getElem?_foldl_writeEntry_of_notMem hj]
      rcases hb : order[j]? with _ | b
      · have hlen : order.length = s.instructions.length := by
          rw [h.length_eq, SubJob.shapes, List.length_map]
        rw [List.getElem?_eq_none_iff] at hb
        rw [Option.bind_none, List.getElem?_eq_none_iff, ← hlen]
        exact hb
      · obtain ⟨i, op, hi, hop, hshape⟩ := h.exists_instruction hb
        have hplain : op.shape.isParameterized = false := by
          refine Bool.eq_false_iff.2 fun hparam => hj (List.mem_map.2 ⟨⟨j, b⟩, ?_, rfl⟩)
          refine mem_ofOrder.2 ⟨hb, ?_⟩
          rw [Program.shapes, List.getElem?_map, hop, Option.map_some, Option.any_some]
          exact hparam
        rw [hi, Option.bind_some, hop, Option.map_some,
          eq_compiled_of_not_isParameterized hshape hplain]
  rw [write, hinstructions]

end Mapping

end CircuitCache
