import CircuitCache.Backing
import CircuitCache.CommandLine.Arguments
import CircuitCache.Config.Environment
import CircuitCache.Failure
import CircuitCache.Routine
import CircuitCache.Snapshot.Listing

/-!
# The command line

A command inspects, verifies or removes one cache file.  The file is the path among the arguments,
or else the one that the configuration and the environment name, or else a file in the home
directory.
-/

namespace CircuitCache.CommandLine

open Config (Environment)

/-- What a command leaves behind besides files. -/
structure Report where
  code : UInt32
  output : String
  errors : String
  deriving DecidableEq, Repr

/-- A routine that may fail. -/
abbrev Attempt := ExceptT Failure Routine

/-! ## Finding the cache file -/

/-- The variable that names the directory of the cache file. -/
def directoryVariable : String := "JOBCACHE_DIR"

/-- The variable that names the home directory. -/
def homeVariable : String := "HOME"

/-- The name of the cache file within its directory. -/
def fileName : String := "cache.json"

/-- The cache file where nothing else is said. -/
def defaultFile (env : Environment) : Except Failure String :=
  match env directoryVariable, env homeVariable with
  | some directory, _ => .ok (FilePath.join directory fileName)
  | none, some home => .ok (FilePath.join (FilePath.join home ".jobcache") fileName)
  | none, none => .error ⟨"failed to determine user directories", []⟩

/-- The configuration in a file. -/
def configFrom (path : String) (content : Except OsError Bytes) : Except Failure Config :=
  match content with
  | .error e => .error ((Failure.ofSystem e).within ("failed to read cache config " ++ path))
  | .ok bytes =>
    match Text.ofUtf8? bytes with
    | none => .error ⟨"failed to read cache config " ++ path,
        ["stream did not contain valid UTF-8"]⟩
    | some text =>
      match Config.ofYaml text with
      | .ok c => .ok c
      | .error e => .error ((Failure.ofConfig e).within ("in " ++ path))

/-- The configuration that `--config` names, or the default. -/
def readConfig : Option String → Attempt Config
  | none => return {}
  | some path => do ExceptT.mk (return configFrom path (← Routine.content path))

/-- The cache file that a configuration and an environment lead to. -/
def configuredFile (env : Environment) (c : Config) : Except Failure String :=
  match c.override env with
  | .error e => .error (Failure.ofConfig e)
  | .ok c =>
    match c.persistenceTarget with
    | some path => .ok path
    | none => defaultFile env

/-- The cache file of a command.  A path among the arguments leaves nothing else to be read. -/
def cacheFile (env : Environment) (path config : Option String) : Attempt String :=
  match path with
  | some path => return path
  | none => do
    let c ← readConfig config
    ExceptT.mk (return configuredFile env c)

/-! ## Acting on it -/

/-- The snapshot in the bytes of a cache file, none if there is no file. -/
def snapshotFrom (path : String) (content : Except OsError Bytes) :
    Except Failure (Option Snapshot) :=
  match Backing.saved path content with
  | .error e => .error (Failure.ofStorage e)
  | .ok none => .ok none
  | .ok (some bytes) =>
    match Snapshot.decode bytes with
    | .ok s => .ok (some s)
    | .error e => .error ((Failure.ofStorage e).within ("cache file " ++ path ++ " is not usable"))

/-- The snapshot in the cache file at a path, none if there is no file. -/
def readSnapshot (path : String) : Attempt (Option Snapshot) := do
  ExceptT.mk (return snapshotFrom path (← Routine.content path))

/-- What is said of a cache file that is not there. -/
def emptyLine (path : String) : String := "empty " ++ path ++ "\n"

/-- The chunks of a snapshot counted. -/
def verifiedLine (s : Snapshot) : String :=
  "ok " ++ toString (s.chunks.countP Option.isSome) ++ " chunks valid\n"

/-- What is said after a file has been removed or not; a missing one is no failure. -/
def removalLine (path : String) : Except OsError Unit → Except Failure String
  | .ok () => .ok ("removed " ++ path ++ "\n")
  | .error .notFound => .ok (emptyLine path)
  | .error e => .error ((Failure.ofSystem e).within ("failed to remove " ++ path))

/-- Carries out a verb on a cache file; the result is what is printed. -/
def perform (path : String) : Verb → Attempt String
  | .inspect => do
    let s ← readSnapshot path
    return s.elim (emptyLine path) (·.listing path)
  | .verify => do
    let s ← readSnapshot path
    return s.elim (emptyLine path) verifiedLine
  | .clear => do ExceptT.mk (return removalLine path (← Routine.removal path))

/-! ## The command -/

/-- The answer to `--version`. -/
def versionLine : String := "jobcache 0.1.0\n"

/-- The answer to `--help`, and the error output for arguments that make no sense. -/
def usage : String :=
  "Inspect and maintain persisted job caches\n\n"
    ++ "Usage: jobcache [--config <FILE>] <COMMAND> [PATH]\n\n"
    ++ "Commands:\n"
    ++ "  inspect  Prints the chunks, slots and mappings held in a cache file\n"
    ++ "  verify   Checks every chunk of a cache file against its mapping invariants\n"
    ++ "  clear    Deletes a cache file\n"

/-- A failure goes to the error output and gives the exit code 1. -/
def Report.ofResult : Except Failure String → Report
  | .ok output => ⟨0, output, ""⟩
  | .error f => ⟨1, "", f.text⟩

/-- What the command does with these arguments. -/
def run (env : Environment) (args : List String) : Routine Report :=
  match Invocation.ofArguments args with
  | .misuse => return ⟨2, "", usage⟩
  | .help => return ⟨0, usage, ""⟩
  | .version => return ⟨0, versionLine, ""⟩
  | .act verb path config => do
    let result ← (do perform (← cacheFile env path config) verb : Attempt String).run
    return .ofResult result

end CircuitCache.CommandLine
