import CircuitCache.FileTree
import CircuitCache.Snapshot

/-!
# Where a store is saved

A store may have a backing, in memory or in a file, that outlives it.
-/

namespace CircuitCache

/-- What holds the bytes of a saved store. -/
inductive Backing where
  | none
  | memory (content : Option Bytes)
  | file (path : String) (tree : FileTree)
  deriving DecidableEq, Repr

namespace Backing

/-- What reading a cache file comes to: a missing file holds nothing. -/
def saved (path : String) : Except OsError Bytes → Except StorageError (Option Bytes)
  | .ok bytes => .ok (some bytes)
  | .error .notFound => .ok Option.none
  | .error e => .error (.read path e)

/-- The bytes that were saved last, none if nothing has been saved. -/
def load : Backing → Except StorageError (Option Bytes)
  | none => .ok Option.none
  | memory content => .ok content
  | file path tree => saved path (tree.read path)

/-- The backing with other bytes, or why they could not be saved. -/
def save (bytes : Bytes) : Backing → Except StorageError Unit × Backing
  | none => (.ok (), none)
  | memory _ => (.ok (), memory (some bytes))
  | file path tree =>
    match tree.write path bytes with
    | (tree, Option.none) => (.ok (), file path tree)
    | (tree, some e) => (.error (.write path e), file path tree)

/-- The name of the backing, if there is one. -/
def describe : Backing → Option String
  | none => Option.none
  | memory _ => some "memory"
  | file path _ => some path

/-- The chunks that the backing holds, none of them if it cannot be read. -/
def chunks (b : Backing) : List (Option Chunk) :=
  match b.load with
  | .ok (some bytes) =>
    match Snapshot.decode bytes with
    | .ok s => s.chunks
    | .error _ => []
  | _ => []

end Backing

end CircuitCache
