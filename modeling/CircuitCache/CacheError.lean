import CircuitCache.Key

/-!
# Errors of the cache

Why a job does not fit a batch of programs, or a chunk cannot serve one.
-/

namespace CircuitCache

/-- How a compiled form, a mapping and a program disagree. -/
inductive Mismatch where
  | extraInstruction (signature : Signature) (instruction : Nat)
  | missingInstruction (signature : Signature) (operation : Nat)
  | signatureChanged (instruction operation : Nat) (expected found : Signature)
  | operationOutOfRange (operation length : Nat)
  | instructionOutOfRange (instruction length : Nat)
  | duplicateOperation (operation : Nat)
  | mappingLength (mapped patchable : Nat)
  | structureChanged (expected found : Key)
  | slotCount (subJobs programs : Nat)
  deriving DecidableEq, Repr

/-- Why the cache refuses a call. -/
inductive CacheError where
  | structuralMismatch (slot : Nat) (reason : Mismatch)
  | miss (chunk : Nat)
  | shapeMismatch (chunk requested capacity : Nat)
  | arityMismatch (slot instruction : Nat) (signature : Signature) (compiled expected : Nat)
  deriving DecidableEq, Repr

/-- What a message says about a disagreement.  Positions count from zero. -/
def Mismatch.message : Mismatch → String
  | extraInstruction signature instruction =>
    "compiled job has an extra `" ++ signature.text ++ "` instruction at position "
      ++ toString instruction
  | missingInstruction signature operation =>
    "program operation " ++ toString operation ++ " (`" ++ signature.text
      ++ "`) has no compiled counterpart"
  | signatureChanged instruction operation expected found =>
    "instruction " ++ toString instruction ++ " is `" ++ found.text ++ "` but mapped operation "
      ++ toString operation ++ " is `" ++ expected.text ++ "`"
  | operationOutOfRange operation length =>
    "mapped operation " ++ toString operation ++ " is outside the program ("
      ++ toString length ++ " operations)"
  | instructionOutOfRange instruction length =>
    "mapped instruction " ++ toString instruction ++ " is outside the sub-job ("
      ++ toString length ++ " instructions)"
  | duplicateOperation operation =>
    "operation " ++ toString operation ++ " is mapped more than once"
  | mappingLength mapped patchable =>
    "mapping covers " ++ toString mapped ++ " instructions, sub-job has " ++ toString patchable
      ++ " patchable ones"
  | structureChanged expected found =>
    "program structure `" ++ found.text ++ "` differs from the cached `" ++ expected.text ++ "`"
  | slotCount subJobs programs =>
    "compiled job has " ++ toString subJobs ++ " sub-jobs for " ++ toString programs ++ " programs"

namespace CacheError

/-- What is shown for an error of the cache. -/
def message : CacheError → String
  | structuralMismatch slot reason =>
    "structural mismatch in slot " ++ toString slot ++ ": " ++ reason.message
  | miss chunk => "chunk " ++ toString chunk ++ " is not cached"
  | shapeMismatch chunk requested capacity =>
    "chunk " ++ toString chunk ++ " holds " ++ toString capacity ++ " program slots, "
      ++ toString requested ++ " were submitted"
  | arityMismatch slot instruction signature compiled expected =>
    "parameter arity mismatch in slot " ++ toString slot ++ " at instruction "
      ++ toString instruction ++ " (`" ++ signature.text ++ "`): compiled form has "
      ++ toString compiled ++ ", program has " ++ toString expected

/-- Whether the error only says that the chunk has to be compiled first. -/
def isMiss : CacheError → Bool
  | miss _ => true
  | _ => false

end CacheError

end CircuitCache
