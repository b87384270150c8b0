import CircuitCache.Binary64
import CircuitCache.Signature

/-!
# Compiled jobs

A job is what one submission was compiled to: for each program a sub-job, whose instructions carry
the parameters as words.
-/

namespace CircuitCache

/-- A compiled operation, with its parameters as words. -/
structure Instruction where
  tag : Tag
  operands : List Address
  params : List Binary64
  deriving DecidableEq, Repr

namespace Instruction

/-- The signature, which ignores the parameters. -/
def signature (i : Instruction) : Signature := ⟨i.tag, i.operands⟩

/-- The shape, which ignores the parameters but not how many there are. -/
def shape (i : Instruction) : Shape := ⟨i.signature, i.params.length⟩

/-- Whether a patch rewrites the instruction: whether it has parameters. -/
def isPatchable (i : Instruction) : Bool := !i.params.isEmpty

/-- Equality with parameters compared as values. -/
def same (i j : Instruction) : Bool :=
  i.tag == j.tag && i.operands == j.operands && i.params.isEqv j.params Binary64.same

end Instruction

/-- The compiled form of one program.  A listing is the compiler's text for the very parameters it
was given. -/
structure SubJob where
  name : String
  instructions : List Instruction
  listing : Option String
  deriving DecidableEq, Repr

namespace SubJob

/-- How many instructions carry parameters. -/
def patchableCount (s : SubJob) : Nat := s.instructions.countP Instruction.isPatchable

/-- The sub-job without its listing, which goes stale when parameters change. -/
def unlisted (s : SubJob) : SubJob := { s with listing := none }

/-- Equality with parameters compared as values. -/
def same (s t : SubJob) : Bool :=
  s.name == t.name && s.instructions.isEqv t.instructions Instruction.same
    && s.listing == t.listing

end SubJob

/-- A compiled submission. -/
structure Job where
  backend : String
  subJobs : List SubJob
  deriving DecidableEq, Repr

/-- Equality with parameters compared as values. -/
def Job.same (j k : Job) : Bool := j.backend == k.backend && j.subJobs.isEqv k.subJobs SubJob.same

end CircuitCache
