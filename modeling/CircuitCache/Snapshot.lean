import CircuitCache.Chunk.Json
import CircuitCache.Instant.Reader
import CircuitCache.Json.Printer
import CircuitCache.Json.Reader
import CircuitCache.OsError

/-!
# Snapshots

A snapshot is the stored form of all chunks of a store, as the text of one JSON value with the
version of the format and the time of saving.  Reading one verifies every chunk, since the bytes
may come from anywhere.
-/

namespace CircuitCache

open Json

/-- Why stored chunks cannot be read or written. -/
inductive StorageError where
  | read (path : String) (cause : OsError)
  | write (path : String) (cause : OsError)
  | decode
  | version (found expected : Nat)
  | invalid (chunk : Nat) (reason : CacheError)
  deriving DecidableEq, Repr

namespace StorageError

/-- What is shown for an error of a cache file, without its cause. -/
def message : StorageError → String
  | read path _ => "failed to read cache file " ++ path
  | write path _ => "failed to write cache file " ++ path
  | decode => "failed to decode cache snapshot"
  | version found expected =>
    "cache snapshot has format version " ++ toString found ++ ", expected " ++ toString expected
  | invalid chunk reason =>
    "cache snapshot chunk " ++ toString chunk ++ " is invalid: " ++ reason.message

/-- The cause of the error in words, if it has one apart from the error itself. -/
def cause? : StorageError → Option String
  | read _ cause => some cause.message
  | write _ cause => some cause.message
  | decode => some "the bytes are not the text of a snapshot"
  | _ => none

end StorageError

/-- What a snapshot holds. -/
structure Snapshot where
  formatVersion : Nat
  savedAt : Instant
  chunks : List (Option Chunk)
  deriving DecidableEq, Repr

namespace Snapshot

/-- The version of the format that is written, and the only one that is read. -/
def currentVersion : Nat := 1

/-- The fields of a stored snapshot, in order. -/
def fieldNames : List String := ["format_version", "saved_at", "chunks"]

/-! ### Writing -/

/-- A gap between chunks is stored as null. -/
def chunkToJson : Option Chunk → Value
  | none => .null
  | some c => c.toJson

/-- A snapshot with the instant of its writing. -/
def toJson (savedAt : Instant) (chunks : List (Option Chunk)) : Value :=
  .object [
    field "format_version" (.nat currentVersion),
    field "saved_at" (.text savedAt.textZulu),
    field "chunks" (.array (chunks.map chunkToJson))]

/-- The stored form of the chunks of a store. -/
def encode (savedAt : Instant) (chunks : List (Option Chunk)) : Bytes :=
  Text.ofOctets (toJson savedAt chunks).print

/-! ### Reading -/

/-- A chunk, or null where there is none. -/
def chunkOfJson? : Value → Option (Option Chunk)
  | .null => some none
  | v => (Chunk.ofJson? v).map some

/-- The snapshot of a value, of any version and with chunks not yet verified. -/
def ofJson? (v : Value) : Option Snapshot := do
  match ← v.fields? fieldNames with
  | [some version, some savedAt, some chunks] =>
    let version ← version.nat? UInt32.size
    let savedAt ← Instant.ofText? (← savedAt.text?)
    let chunks ← listOfJson? chunkOfJson? chunks
    return ⟨version, savedAt, chunks⟩
  | _ => none

/-- The first chunk from position `index` on that does not verify, with the reason. -/
def firstInvalid? : (index : Nat) → List (Option Chunk) → Option (Nat × CacheError)
  | _, [] => none
  | index, none :: rest => firstInvalid? (index + 1) rest
  | index, some c :: rest =>
    match c.verify with
    | .error reason => some (index, reason)
    | .ok () => firstInvalid? (index + 1) rest

/-- The snapshot that bytes are the stored form of, every chunk verified. -/
def decode (bytes : Bytes) : Except StorageError Snapshot :=
  match (Value.read (Text.octets bytes)).bind ofJson? with
  | none => .error .decode
  | some s =>
    if s.formatVersion ≠ currentVersion then .error (.version s.formatVersion currentVersion)
    else
      match firstInvalid? 0 s.chunks with
      | some (index, reason) => .error (.invalid index reason)
      | none => .ok s

end Snapshot

end CircuitCache
