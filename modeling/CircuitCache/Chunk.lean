import CircuitCache.Mapping

/-!
# Chunks

A chunk is one compiled job with, for each of its slots, the mapping that lets the slot be given
new parameters and the key of the program it was built from.
-/

namespace CircuitCache

/-- A cached job.  Slot `i` is sub-job `i` with mapping `i` and key `i`. -/
structure Chunk where
  job : Job
  mappings : List Mapping
  keys : List Key
  deriving DecidableEq, Repr

namespace Chunk

/-- How many programs the chunk has slots for, counted by the mappings. -/
def slotCount (c : Chunk) : Nat := c.mappings.length

/-- Whether there is a slot for every program, each built from a program with the same key. -/
def serves (c : Chunk) (programs : List Program) : Bool :=
  decide (programs.length ≤ c.slotCount)
    && (programs.zip c.keys).all fun (p, key) => Key.ofProgram p = key

/-! ### Verifying -/

/-- Checks the mappings of the slots from `slot` on. -/
def verifyMappings : (slot : Nat) → List Mapping → List SubJob → Except CacheError Unit
  | slot, m :: ms, s :: ss =>
    match m.verify slot s with
    | .error e => .error e
    | .ok () => verifyMappings (slot + 1) ms ss
  | _, _, _ => .ok ()

/-- Checks that every slot has a sub-job, a mapping and a key, and that its mapping is usable. -/
def verify (c : Chunk) : Except CacheError Unit :=
  let subJobs := c.job.subJobs.length
  if subJobs ≠ c.mappings.length ∨ subJobs ≠ c.keys.length then
    .error (.structuralMismatch 0 (.slotCount subJobs c.mappings.length))
  else verifyMappings 0 c.mappings c.job.subJobs

/-! ### Growing -/

/-- A list filled up to `count` items with copies of `item`. -/
def fill {α : Type} (count : Nat) (item : α) (items : List α) : List α :=
  items ++ List.replicate (count - items.length) item

theorem length_fill {α : Type} (count : Nat) (item : α) (items : List α) :
    (fill count item items).length = max count items.length := by
  simp only [fill, List.length_append, List.length_replicate]
  omega

/-- The chunk with at least `count` slots, the missing ones filled with copies of slot 0.  A chunk
without slots has nothing to copy. -/
def grow (c : Chunk) (index count : Nat) : Except CacheError Chunk :=
  if count ≤ c.slotCount then .ok c
  else
    match c.job.subJobs, c.mappings, c.keys with
    | s :: _, m :: _, k :: _ =>
      .ok ⟨{ c.job with subJobs := fill count s c.job.subJobs }, fill count m c.mappings,
        fill count k c.keys⟩
    | _, _, _ => .error (.miss index)

/-- Equality with parameters compared as values. -/
def same (c d : Chunk) : Bool := c.job.same d.job && c.mappings == d.mappings && c.keys == d.keys

end Chunk

end CircuitCache
