import CircuitCache.Config.Document
import CircuitCache.Text.Blank

/-!
# Overriding a configuration

Three environment variables override the fields of a configuration: the file, the mode and the
limit, in this order.  The first bad one is reported.
-/

namespace CircuitCache.Config

/-- The variables of an environment. -/
abbrev Environment := String → Option String

/-- The variable that overrides the path of the cache file. -/
def fileVariable : String := "JOBCACHE_FILE"

/-- The variable that overrides the way of patching. -/
def fastModeVariable : String := "JOBCACHE_FAST_MODE"

/-- The variable that overrides the greatest number of programs in a chunk. -/
def limitVariable : String := "JOBCACHE_SUBMISSION_LIMIT"

/-- What a flag says: no white space around it, and letters in any case. -/
def flagOf? (flag : String) : Option Bool :=
  if flag ∈ ["1", "true", "yes", "on"] then some true
  else if flag ∈ ["0", "false", "no", "off", ""] then some false
  else none

/-- The file named by the environment; an empty name counts as none. -/
def overrideTarget (env : Environment) (c : Config) : Config :=
  match env fileVariable with
  | some path => if path = "" then c else { c with persistenceTarget := some path }
  | none => c

/-- The configuration with the way of patching that the environment asks for. -/
def overrideMode (env : Environment) (c : Config) : Except ConfigError Config :=
  match env fastModeVariable with
  | none => .ok c
  | some value =>
    let flag := String.ofList ((Text.trim value.toList).map Char.toLower)
    match flagOf? flag with
    | some fast => .ok { c with fastMode := fast }
    | none => .error (.badFlag value flag)

/-- The configuration with the limit of the environment; zero is refused later, by the check. -/
def overrideLimit (env : Environment) (c : Config) : Except ConfigError Config :=
  match env limitVariable with
  | none => .ok c
  | some value =>
    match Text.readNatural (Text.trim value.toList) with
    | .ok limit => .ok { c with submissionSizeLimit := limit }
    | .error cause => .error (.badLimit value cause)

/-- A configuration with what the environment overrides. -/
def override (c : Config) (env : Environment) : Except ConfigError Config := do
  let c ← overrideMode env (overrideTarget env c)
  let c ← overrideLimit env c
  c.validate

end CircuitCache.Config
