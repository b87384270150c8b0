import CircuitCache.Store
import CircuitCache.Text.Quoted

/-!
# Diagnostics of a store

One line with the configuration, the statistics and the backing of a store.
-/

namespace CircuitCache

/-- A truth value in a description. -/
def describeBool (b : Bool) : String := if b then "true" else "false"

/-- A text that may be missing. -/
def describeText : Option String → String
  | none => "None"
  | some s => "Some(" ++ Text.Quoted.quote s ++ ")"

/-- A record by its name and its fields. -/
def describeRecord (name : String) (fields : List (String × String)) : String :=
  name ++ " \x7b " ++ ", ".intercalate (fields.map fun (field, value) => field ++ ": " ++ value)
    ++ " \x7d"

/-- A configuration in a description. -/
def Config.describe (c : Config) : String :=
  describeRecord "CacheConfig" [
    ("submission_size_limit", toString c.submissionSizeLimit),
    ("fast_mode", describeBool c.fastMode),
    ("persistence_target", describeText c.persistenceTarget),
    ("reuse_across_chunks", describeBool c.reuseAcrossChunks)]

/-- The figures of a store in a description. -/
def Stats.describe (s : Stats) : String :=
  describeRecord "CacheStats" [
    ("chunks", toString s.chunks),
    ("slots", toString s.slots),
    ("hits", toString s.counters.hits),
    ("misses", toString s.counters.misses),
    ("inserts", toString s.counters.inserts),
    ("template_reuses", toString s.counters.reuses),
    ("patches", toString s.counters.patches)]

/-- A store in a description, which leaves out its chunks. -/
def Store.describe (s : Store) : String :=
  describeRecord "JobCache" [
    ("config", s.config.describe),
    ("stats", s.stats.describe),
    ("persistence", describeText s.backing.describe)]

end CircuitCache
