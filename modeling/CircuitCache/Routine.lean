import CircuitCache.FileTree

/-!
# Routines on files

A routine reads and removes files one after the other and ends with a result.  What it does next
depends only on what the system answered, so a routine can be run on a tree of files as well as on
a real system.
-/

namespace CircuitCache

/-- What to do with files until the result is known. -/
inductive Routine (α : Type) where
  | done (result : α)
  | read (path : String) (next : Except OsError Bytes → Routine α)
  | remove (path : String) (next : Except OsError Unit → Routine α)

namespace Routine

variable {α β : Type}

/-- One routine and then another, which depends on the result of the first. -/
def bind (f : α → Routine β) : Routine α → Routine β
  | done result => f result
  | read path next => .read path fun answer => (next answer).bind f
  | remove path next => .remove path fun answer => (next answer).bind f

instance : Monad Routine where
  pure := done
  bind r f := r.bind f

/-- Reads a file, or says why it cannot be read. -/
def content (path : String) : Routine (Except OsError Bytes) := .read path .done

/-- Removes a file, or says why it cannot be removed. -/
def removal (path : String) : Routine (Except OsError Unit) := .remove path .done

/-- The result of a routine on a tree of files, and the tree after it. -/
def run : Routine α → FileTree → α × FileTree
  | done result, t => (result, t)
  | read path next, t => (next (t.read path)).run t
  | remove path next, t =>
    match t.remove path with
    | .ok after => (next (.ok ())).run after
    | .error e => (next (.error e)).run t

end Routine

end CircuitCache
