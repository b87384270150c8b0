import CircuitCache.Config.Document
import CircuitCache.Snapshot
import CircuitCache.Text.Column

/-!
# Failures

What a command could not do, with the chain of causes below it.
-/

namespace CircuitCache

/-- Why a command stopped; the causes are in order, the outermost first. -/
structure Failure where
  message : String
  causes : List String
  deriving DecidableEq, Repr

namespace Failure

/-- A failure seen from further outside. -/
def within (context : String) (f : Failure) : Failure := ⟨context, f.message :: f.causes⟩

/-- A failure to read, write or understand a cache file. -/
def ofStorage (e : StorageError) : Failure := ⟨e.message, e.cause?.toList⟩

/-- A failure to understand a configuration. -/
def ofConfig (e : ConfigError) : Failure := ⟨e.message, e.cause?.toList⟩

/-- A failure of the operating system. -/
def ofSystem (e : OsError) : Failure := ⟨e.message, []⟩

/-- Causes from position `index` on, each on a line of its own after its number. -/
def numbered : (index : Nat) → List String → String
  | _, [] => ""
  | index, cause :: rest =>
    "\n" ++ Text.alignRight 5 (toString index) ++ ": " ++ Text.hangingIndent 7 cause
      ++ numbered (index + 1) rest

/-- The causes below a heading; a single one has no number. -/
def causesText : List String → String
  | [] => ""
  | [cause] => "\n\nCaused by:\n    " ++ Text.hangingIndent 4 cause
  | causes => "\n\nCaused by:" ++ numbered 0 causes

/-- The failure in words, as a command reports it. -/
def text (f : Failure) : String := "error: " ++ f.message ++ causesText f.causes ++ "\n"

end Failure

end CircuitCache
