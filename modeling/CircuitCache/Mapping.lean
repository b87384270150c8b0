import CircuitCache.CacheError
import CircuitCache.Job

/-!
# Mappings

A mapping says which source operation feeds which instruction of a sub-job.  `Mapping.build` pairs
equal signatures in order; `Mapping.verify` checks a mapping against its sub-job alone.
-/

namespace CircuitCache

/-- A patchable instruction and the operation that feeds it, both as positions. -/
structure Entry where
  instruction : Nat
  operation : Nat
  deriving DecidableEq, Repr

/-- The entries of one slot, in the order of the instructions. -/
structure Mapping where
  entries : List Entry
  deriving DecidableEq, Repr

namespace Mapping

/-- The operations that feed the instructions, in order. -/
def sources (m : Mapping) : List Nat := m.entries.map Entry.operation

/-! ## Building -/

/-- An operation that no instruction has claimed yet, with its position. -/
abbrev Waiting := Operation × Nat

/-- Takes the first waiting operation with a signature out of the queue. -/
def claim (signature : Signature) : List Waiting → Option (Waiting × List Waiting)
  | [] => none
  | w :: rest =>
    if w.1.signature = signature then some (w, rest)
    else (claim signature rest).map fun (found, others) => (found, w :: others)

theorem claim_eq_none_iff {signature : Signature} {waiting : List Waiting} :
    claim signature waiting = none ↔ ∀ w ∈ waiting, w.1.signature ≠ signature := by
  induction waiting with
  | nil => simp [claim]
  | cons w rest ih =>
    by_cases h : w.1.signature = signature
    · simp [claim, h]
    · simp [claim, h, ih]

/-- The entries of the instructions from `position` on, each of which claims the first waiting
operation of its signature.  Nothing may be left waiting in the end. -/
def pairUp (slot : Nat) :
    (waiting : List Waiting) → (position : Nat) → List Instruction → Except CacheError (List Entry)
  | [], _, [] => .ok []
  | (op, index) :: _, _, [] =>
    .error (.structuralMismatch slot (.missingInstruction op.signature index))
  | waiting, position, i :: rest =>
    match claim i.signature waiting with
    | none => .error (.structuralMismatch slot (.extraInstruction i.signature position))
    | some ((op, index), others) =>
      if op.params.length ≠ i.params.length then
        .error (.arityMismatch slot position i.signature i.params.length op.params.length)
      else
        match pairUp slot others (position + 1) rest with
        | .error e => .error e
        | .ok entries =>
          .ok (if i.isPatchable then ⟨position, index⟩ :: entries else entries)

/-- The mapping from a program to its compiled form. -/
def build (slot : Nat) (p : Program) (sub : SubJob) : Except CacheError Mapping :=
  match pairUp slot p.unrolled.zipIdx 0 sub.instructions with
  | .error e => .error e
  | .ok entries => .ok ⟨entries⟩

/-! ## Verifying -/

/-- Whether an entry's instruction comes after the last one and is one that carries parameters. -/
def followsPatchable (sub : SubJob) (previous : Option Nat) (e : Entry) : Bool :=
  previous.all (· < e.instruction) && sub.instructions[e.instruction]?.any Instruction.isPatchable

/-- The fault of the first bad entry, given the last instruction and the operations before. -/
def fault? (sub : SubJob) (previous : Option Nat) (seen : List Nat) : List Entry → Option Mismatch
  | [] => none
  | e :: rest =>
    if !followsPatchable sub previous e then
      some (.instructionOutOfRange e.instruction sub.instructions.length)
    else if e.operation ∈ seen then some (.duplicateOperation e.operation)
    else fault? sub (some e.instruction) (e.operation :: seen) rest

/-- Checks that the entries cover the patchable instructions in order and repeat no operation. -/
def verify (slot : Nat) (m : Mapping) (sub : SubJob) : Except CacheError Unit :=
  match fault? sub none [] m.entries with
  | some reason => .error (.structuralMismatch slot reason)
  | none =>
    if sub.patchableCount ≠ m.entries.length then
      .error (.structuralMismatch slot (.mappingLength m.entries.length sub.patchableCount))
    else .ok ()

end Mapping

end CircuitCache
