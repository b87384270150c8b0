import CircuitCache.Binary64

/-!
# Statistics

What a store has counted since it was opened or cleared, and what it holds.
-/

namespace CircuitCache

/-- How often what happened. -/
structure Counters where
  hits : Nat := 0
  misses : Nat := 0
  inserts : Nat := 0
  /-- Chunks or slots filled with copies. -/
  reuses : Nat := 0
  patches : Nat := 0
  deriving DecidableEq, Repr, Inhabited

/-- The counters of a store together with its size. -/
structure Stats where
  chunks : Nat
  slots : Nat
  counters : Counters
  deriving DecidableEq, Repr

/-- The share of hits among all look-ups, zero if there were none. -/
def Stats.hitRate (s : Stats) : Binary64 :=
  let lookups := s.counters.hits + s.counters.misses
  if lookups = 0 then .zero else .ofRatio false s.counters.hits lookups

end CircuitCache
