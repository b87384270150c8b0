import CircuitCache.Chunk
import CircuitCache.Json.Number

/-!
# The stored form of chunks

Each part of a chunk as a JSON value, and the readers back.  Readers take a record as an object or
as an array of its fields, and a missing parameter list or listing as empty.
-/

namespace CircuitCache

open Json

/-! ## Words -/

namespace Binary64

/-- The numeral that is written for a finite word. -/
def numeral (x : Binary64) : Numeral := Numeral.ofDecimal x.shortest

/-- A finite word is a number; the others have names. -/
def toJson (x : Binary64) : Value :=
  if x.isFinite then .number x.numeral
  else if x.isNaN then .text "NaN"
  else if x.isNegative then .text "-inf"
  else .text "inf"

/-- A number must not be too large for a word, and a text must not denote a finite one. -/
def ofJson? : Value → Option Binary64
  | .number n => n.word?
  | .string cs => ((textOf? cs).bind ofText?).filter (!·.isFinite)
  | _ => none

end Binary64

/-! ## Jobs -/

namespace Tag

/-- A tag is stored by its name. -/
def toJson (tag : Tag) : Value := .text tag.name

/-- A tag is its name, or an object that has just its name as a member without a value. -/
def ofJson? : Value → Option Tag
  | .string cs => (textOf? cs).bind ofName?
  | .object [(cs, .null)] => (textOf? cs).bind ofName?
  | _ => none

end Tag

/-- A list of items, each of which is read. -/
def listOfJson? {α : Type} (read : Value → Option α) (v : Value) : Option (List α) := do
  (← v.items?).mapM read

namespace Instruction

/-- The fields of a stored instruction, in order. -/
def fieldNames : List String := ["tag", "operands", "params"]

/-- A stored instruction always shows its parameters, even where it has none. -/
def toJson (i : Instruction) : Value :=
  .object [
    field "tag" i.tag.toJson,
    field "operands" (.array (i.operands.map fun a => .nat a.toNat)),
    field "params" (.array (i.params.map Binary64.toJson))]

/-- An operand must be a natural number that fits into an address. -/
def addressOfJson? (v : Value) : Option Address := (v.nat? UInt64.size).map UInt64.ofNat

/-- The instruction of a value; without `params` it has no parameters. -/
def ofJson? (v : Value) : Option Instruction := do
  match ← v.fields? fieldNames with
  | [some tag, some operands, params] =>
    let tag ← Tag.ofJson? tag
    let operands ← listOfJson? addressOfJson? operands
    let params ← match params with
      | none => some []
      | some params => listOfJson? Binary64.ofJson? params
    return ⟨tag, operands, params⟩
  | _ => none

end Instruction

namespace SubJob

/-- The fields of a stored sub-job, in order. -/
def fieldNames : List String := ["name", "instructions", "listing"]

/-- A stored sub-job shows a listing only where it has one. -/
def toJson (s : SubJob) : Value :=
  .object ([
    field "name" (.text s.name),
    field "instructions" (.array (s.instructions.map Instruction.toJson))]
    ++ (s.listing.map fun l => field "listing" (.text l)).toList)

/-- A listing may be given as null. -/
def listingOfJson? : Option Value → Option (Option String)
  | none => some none
  | some .null => some none
  | some v => v.text?.map some

/-- The sub-job of a value. -/
def ofJson? (v : Value) : Option SubJob := do
  match ← v.fields? fieldNames with
  | [some name, some instructions, listing] =>
    let name ← name.text?
    let instructions ← listOfJson? Instruction.ofJson? instructions
    let listing ← listingOfJson? listing
    return ⟨name, instructions, listing⟩
  | _ => none

end SubJob

namespace Job

/-- The fields of a stored job, in order. -/
def fieldNames : List String := ["backend", "sub_jobs"]

/-- A job as it is stored. -/
def toJson (j : Job) : Value :=
  .object [
    field "backend" (.text j.backend),
    field "sub_jobs" (.array (j.subJobs.map SubJob.toJson))]

/-- The job of a value. -/
def ofJson? (v : Value) : Option Job := do
  match ← v.fields? fieldNames with
  | [some backend, some subJobs] =>
    let backend ← backend.text?
    let subJobs ← listOfJson? SubJob.ofJson? subJobs
    return ⟨backend, subJobs⟩
  | _ => none

end Job

/-! ## Mappings and chunks -/

namespace Entry

/-- The fields of a stored entry, in order. -/
def fieldNames : List String := ["instruction", "operation"]

/-- An entry as it is stored. -/
def toJson (e : Entry) : Value :=
  .object [field "instruction" (.nat e.instruction), field "operation" (.nat e.operation)]

/-- The entry of a value; both positions must fit into 64 bits. -/
def ofJson? (v : Value) : Option Entry := do
  match ← v.fields? fieldNames with
  | [some instruction, some operation] =>
    let instruction ← instruction.nat? UInt64.size
    let operation ← operation.nat? UInt64.size
    return ⟨instruction, operation⟩
  | _ => none

end Entry

namespace Mapping

/-- A mapping is stored as the list of its entries. -/
def toJson (m : Mapping) : Value := .array (m.entries.map Entry.toJson)

/-- The mapping of a value.  Nothing is verified here. -/
def ofJson? (v : Value) : Option Mapping := (listOfJson? Entry.ofJson? v).map Mapping.mk

end Mapping

namespace Key

/-- A key is stored as its text. -/
def toJson (k : Key) : Value := .text k.text

/-- The key of a value, which may be any text. -/
def ofJson? (v : Value) : Option Key := v.text?.map Key.mk

end Key

namespace Chunk

/-- The fields of a stored chunk, in order. -/
def fieldNames : List String := ["job", "mappings", "keys"]

/-- A chunk as it is stored. -/
def toJson (c : Chunk) : Value :=
  .object [
    field "job" c.job.toJson,
    field "mappings" (.array (c.mappings.map Mapping.toJson)),
    field "keys" (.array (c.keys.map Key.toJson))]

/-- The chunk of a value.  Whether its lists belong together is left to `Chunk.verify`. -/
def ofJson? (v : Value) : Option Chunk := do
  match ← v.fields? fieldNames with
  | [some job, some mappings, some keys] =>
    let job ← Job.ofJson? job
    let mappings ← listOfJson? Mapping.ofJson? mappings
    let keys ← listOfJson? Key.ofJson? keys
    return ⟨job, mappings, keys⟩
  | _ => none

end Chunk

end CircuitCache
