/-!
# Splitting a batch into chunks

A batch of programs is cut into pieces no longer than the submission limit.
-/

namespace CircuitCache

/-- A run of programs that one chunk serves: those from `start` up to, and without, `stop`. -/
structure Piece where
  chunk : Nat
  start : Nat
  stop : Nat
  deriving DecidableEq, Repr

namespace Piece

/-- The greatest length of a piece; a limit of zero counts as one. -/
def width (limit : Nat) : Nat := max limit 1

/-- The pieces from number `chunk` on, of the programs from `start` up to `count`. -/
def splitFrom (count limit chunk start : Nat) : List Piece :=
  if h : start < count then
    have : count - (start + width limit) < count - start := by
      have : 0 < width limit := by unfold width; omega
      omega
    ⟨chunk, start, min (start + width limit) count⟩
      :: splitFrom count limit (chunk + 1) (start + width limit)
  else []
termination_by count - start

theorem splitFrom_of_le {count start : Nat} (h : count ≤ start) (limit chunk : Nat) :
    splitFrom count limit chunk start = [] := by
  rw [splitFrom, dif_neg (Nat.not_lt.2 h)]

theorem splitFrom_of_lt {count start : Nat} (h : start < count) (limit chunk : Nat) :
    splitFrom count limit chunk start =
      ⟨chunk, start, min (start + width limit) count⟩
        :: splitFrom count limit (chunk + 1) (start + width limit) := by
  rw [splitFrom, dif_pos h]

/-- The pieces of a batch of `count` programs. -/
def split (count limit : Nat) : List Piece := splitFrom count limit 0 0

end Piece

end CircuitCache
