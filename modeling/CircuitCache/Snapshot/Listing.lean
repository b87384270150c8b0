import CircuitCache.Snapshot
import CircuitCache.Text.Column

/-!
# Listing a snapshot

One line for the file, one for each chunk, and one for each slot of a chunk, in columns.
-/

namespace CircuitCache

/-- The front of a key as listings show it: its first eight bytes, or a dash where those are not
whole characters. -/
def Key.short (key : Key) : String :=
  match Text.firstBytes? 8 key.text.toList with
  | some cs => String.ofList cs
  | none => "-"

/-- How many instructions are read-outs or bookkeeping. -/
def SubJob.markerCount (s : SubJob) : Nat := s.instructions.countP fun i => i.tag.isMarker

/-- The line of one slot. -/
def slotLine (slot : Nat) (sub : SubJob) (m : Mapping) (key : Option Key) : String :=
  Text.alignRight 12 ("slot " ++ toString slot)
    ++ " " ++ Text.alignLeft 16 sub.name
    ++ " instructions=" ++ Text.alignLeft 5 (toString sub.instructions.length)
    ++ " mapped=" ++ Text.alignLeft 5 (toString m.entries.length)
    ++ " markers=" ++ Text.alignLeft 3 (toString sub.markerCount)
    ++ " key=" ++ (key.map Key.short).getD "-" ++ "\n"

/-- The lines of a chunk: a heading and its slots. -/
def Chunk.listing (index : Nat) (c : Chunk) : String :=
  let slots := (c.job.subJobs.zip c.mappings).zipIdx.map fun ((sub, m), slot) =>
    slotLine slot sub m c.keys[slot]?
  Text.alignRight 8 ("#" ++ toString index) ++ " backend=" ++ c.job.backend
    ++ " slots=" ++ toString c.slotCount ++ "\n" ++ String.join slots

/-- The lines of a snapshot that was read from a file. -/
def Snapshot.listing (path : String) (s : Snapshot) : String :=
  let chunks := s.chunks.zipIdx.map fun (c, index) =>
    match c with
    | some c => c.listing index
    | none => Text.alignRight 8 ("#" ++ toString index) ++ " absent\n"
  "cache " ++ path ++ " (saved " ++ s.savedAt.text ++ ")\n" ++ String.join chunks

end CircuitCache
