import CircuitCache.CommandLine

/-!
# The program

Runs the command line on the real file system.
-/

namespace CircuitCache

/-- An error of the real system. -/
def OsError.ofSystem : IO.Error → OsError
  | .noFileOrDirectory _ number words => ofNumber number.toInt32.toInt words
  | .inappropriateType _ number words => ofNumber number.toInt32.toInt words
  | .invalidArgument _ number words => ofNumber number.toInt32.toInt words
  | .permissionDenied _ number words => ofNumber number.toInt32.toInt words
  | .noSuchThing _ number words => ofNumber number.toInt32.toInt words
  | .resourceBusy number words => ofNumber number.toInt32.toInt words
  | e => other e.toString

/-- Runs a routine on the real file system. -/
def Routine.perform {α : Type} : Routine α → IO α
  | done result => return result
  | read path next => do
    match ← (IO.FS.readBinFile path).toBaseIO with
    | .ok bytes => (next (.ok bytes.data.toList)).perform
    | .error e => (next (.error (.ofSystem e))).perform
  | remove path next => do
    match ← (IO.FS.removeFile path).toBaseIO with
    | .ok () => (next (.ok ())).perform
    | .error e => (next (.error (.ofSystem e))).perform

/-- The variables of the environment that the program looks at. -/
def readEnvironment : IO Config.Environment := do
  let names := [CommandLine.directoryVariable, CommandLine.homeVariable, Config.fileVariable,
    Config.fastModeVariable, Config.limitVariable]
  let values ← names.mapM fun name => IO.getEnv name
  return fun name => ((names.zip values).lookup name).join

end CircuitCache

/-- Carries out the arguments and exits with the code of the report. -/
def main (args : List String) : IO UInt32 := do
  let env ← CircuitCache.readEnvironment
  let report ← (CircuitCache.CommandLine.run env args).perform
  (← IO.getStdout).putStr report.output
  (← IO.getStderr).putStr report.errors
  return report.code
