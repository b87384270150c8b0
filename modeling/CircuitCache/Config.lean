/-!
# Configuration of a store
-/

namespace CircuitCache

/-- How a cached template is handed out after patching. -/
inductive PatchMode where
  /-- A copy is patched, and the template stays. -/
  | safe
  /-- The template itself is patched and lent out. -/
  | fast
  deriving DecidableEq, Repr

/-- What a store is opened with. -/
structure Config where
  /-- The most programs that one chunk is asked to serve. -/
  submissionSizeLimit : Nat := 300
  fastMode : Bool := false
  /-- The file that the store is loaded from and saved to. -/
  persistenceTarget : Option String := none
  /-- Whether chunk 0 and slot 0 stand in for chunks and slots that were never compiled. -/
  reuseAcrossChunks : Bool := true
  deriving DecidableEq, Repr, Inhabited

/-- The way of patching that a configuration asks for. -/
def Config.mode (c : Config) : PatchMode := if c.fastMode then .fast else .safe

end CircuitCache
