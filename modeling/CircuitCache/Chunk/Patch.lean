import CircuitCache.Chunk

/-!
# Patching

A patch gives the first slots of a chunk the parameters of new programs.  Every slot is checked
before anything is written: its entries one by one, then the key.
-/

namespace CircuitCache

/-- A patched job, ready to be run. -/
structure Patched where
  chunk : Nat
  backend : String
  subJobs : List SubJob
  /-- Whether the job is the cached template itself. -/
  isBorrowed : Bool
  deriving DecidableEq, Repr

/-- The patched job as one that no longer borrows from the cache. -/
def Patched.owned (p : Patched) : Patched := { p with isBorrowed := false }

namespace Mapping

/-! ### Checking -/

/-- The reason why an entry does not lead from the operations to the instructions. -/
def entryFault? (slot : Nat) (ops : List Operation) (instructions : List Instruction) (e : Entry) :
    Option CacheError :=
  match instructions[e.instruction]?, ops[e.operation]? with
  | none, _ =>
    some (.structuralMismatch slot (.instructionOutOfRange e.instruction instructions.length))
  | some _, none => some (.structuralMismatch slot (.operationOutOfRange e.operation ops.length))
  | some i, some op =>
    if i.signature ≠ op.signature then
      some (.structuralMismatch slot
        (.signatureChanged e.instruction e.operation op.signature i.signature))
    else if i.params.length ≠ op.params.length then
      some (.arityMismatch slot e.instruction i.signature i.params.length op.params.length)
    else none

/-- The fault of the first bad entry. -/
def firstFault? (slot : Nat) (m : Mapping) (sub : SubJob) (p : Program) : Option CacheError :=
  m.entries.findSome? (entryFault? slot p.unrolled sub.instructions)

/-! ### Writing -/

/-- The first parameters replaced by words, as far as both go. -/
def overwrite : (params words : List Binary64) → List Binary64
  | _ :: params, w :: words => w :: overwrite params words
  | params, _ => params

theorem length_overwrite (params words : List Binary64) :
    (overwrite params words).length = params.length := by
  induction params generalizing words with
  | nil => rfl
  | cons _ params ih =>
    cases words with
    | nil => rfl
    | cons w words => exact congrArg (· + 1) (ih words)

/-- As many words as parameters replace them all. -/
theorem overwrite_eq {params words : List Binary64} (h : params.length = words.length) :
    overwrite params words = words := by
  induction params generalizing words with
  | nil => exact (List.length_eq_zero_iff.1 h.symm).symm
  | cons _ params ih =>
    cases words with
    | nil => cases h
    | cons w words => exact congrArg (w :: ·) (ih (Nat.succ.inj h))

/-- Gives an entry's instruction the parameters of its operation. -/
def writeEntry (ops : List Operation) (instructions : List Instruction) (e : Entry) :
    List Instruction :=
  match ops[e.operation]? with
  | none => instructions
  | some op =>
    instructions.modify e.instruction fun i => { i with params := overwrite i.params op.words }

/-- A sub-job with the name and the parameters of a program. -/
def write (m : Mapping) (sub : SubJob) (p : Program) : SubJob :=
  { sub with
    name := p.name
    instructions := m.entries.foldl (writeEntry p.unrolled) sub.instructions }

end Mapping

namespace Chunk

/-- Checks the slots from `slot` on against as many programs as there are. -/
def checkSlots : (slot : Nat) → List SubJob → List Mapping → List Key → List Program →
    Except CacheError Unit
  | slot, s :: ss, m :: ms, keys, p :: ps =>
    match m.firstFault? slot s p with
    | some e => .error e
    | none =>
      match keys with
      | [] => checkSlots (slot + 1) ss ms [] ps
      | k :: ks =>
        if k = Key.ofProgram p then checkSlots (slot + 1) ss ms ks ps
        else .error (.structuralMismatch slot (.structureChanged k (Key.ofProgram p)))
  | _, _, _, _, _ => .ok ()

/-- The sub-jobs with the first ones written. -/
def writeSlots : List SubJob → List Mapping → List Program → List SubJob
  | s :: ss, m :: ms, p :: ps => m.write s p :: writeSlots ss ms ps
  | ss, _, _ => ss

/-- The sub-jobs of the programs, patched in a copy. -/
def patchCopy (c : Chunk) (index : Nat) (programs : List Program) :
    Except CacheError (List SubJob) :=
  if c.slotCount < programs.length then
    .error (.shapeMismatch index programs.length c.slotCount)
  else
    let copies := c.job.subJobs.take programs.length
    match checkSlots 0 copies c.mappings c.keys programs with
    | .error e => .error e
    | .ok () => .ok (writeSlots copies c.mappings programs)

/-- The chunk with its first slots patched. -/
def patchInPlace (c : Chunk) (index : Nat) (programs : List Program) : Except CacheError Chunk :=
  if c.slotCount < programs.length then
    .error (.shapeMismatch index programs.length c.slotCount)
  else
    match checkSlots 0 c.job.subJobs c.mappings c.keys programs with
    | .error e => .error e
    | .ok () =>
      .ok { c with job := { c.job with subJobs := writeSlots c.job.subJobs c.mappings programs } }

end Chunk

end CircuitCache
