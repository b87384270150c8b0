/-!
# Arguments

A command line has options, one of three verbs, and after the verb at most one path.  The option
`--config` may stand before the verb and again after it, where it counts.
-/

namespace CircuitCache.CommandLine

/-- What to do with a cache file. -/
inductive Verb where
  | inspect
  | verify
  | clear
  deriving DecidableEq, Repr

/-- The name of a verb among the arguments. -/
def Verb.name : Verb → String
  | inspect => "inspect"
  | verify => "verify"
  | clear => "clear"

/-- The verbs in the order in which the usage lists them. -/
def Verb.all : List Verb := [.inspect, .verify, .clear]

/-- The verb with a name. -/
def Verb.ofName? (name : String) : Option Verb := Verb.all.find? (·.name = name)

/-- What a command line asks for. -/
inductive Invocation where
  | act (verb : Verb) (path config : Option String)
  | version
  | help
  | misuse
  deriving DecidableEq, Repr

/-! ### Single arguments -/

/-- An argument by its form. -/
inductive Argument where
  | config (value : Option String)
  | help
  | version
  | separator
  | unknownOption
  | word (text : String)
  deriving DecidableEq, Repr

/-- The form of an argument, which begins with a hyphen if it is an option; a hyphen alone is a
word. -/
def Argument.ofText (text : String) : Argument :=
  match text.toList with
  | ['-', '-'] => separator
  | '-' :: '-' :: long =>
    match long.span (· ≠ '=') with
    | (name, []) =>
      if name = "config".toList then config none
      else if name = "help".toList then help
      else if name = "version".toList then version
      else unknownOption
    | (name, _ :: value) =>
      if name = "config".toList then config (some (String.ofList value)) else unknownOption
  | '-' :: 'h' :: _ => help
  | '-' :: 'V' :: _ => version
  | '-' :: _ :: _ => unknownOption
  | _ => word text

/-! ### Lists of arguments -/

/-- What the arguments so far have said. -/
structure Progress where
  verb : Option Verb := none
  /-- The value of `--config` before the verb. -/
  outerConfig : Option String := none
  /-- The value of `--config` after the verb. -/
  config : Option String := none
  path : Option String := none
  deriving DecidableEq, Repr

namespace Progress

/-- What is asked for when no argument is left. -/
def invocation (s : Progress) : Invocation :=
  match s.verb with
  | some verb => .act verb s.path (s.config.or s.outerConfig)
  | none => .misuse

/-- With a value of `--config`, which is not empty and not given twice on one side of the verb. -/
def withConfig? (s : Progress) (value : String) : Option Progress :=
  if value = "" then none
  else
    match s.verb, s.outerConfig, s.config with
    | none, none, _ => some { s with outerConfig := some value }
    | some _, _, none => some { s with config := some value }
    | _, _, _ => none

/-- With a path, which is not empty and the only one. -/
def withPath? (s : Progress) (path : String) : Option Progress :=
  if path = "" ∨ s.verb = none ∨ s.path ≠ none then none else some { s with path := some path }

/-- With a word, which is a verb first and then a path. -/
def withWord? (s : Progress) (text : String) : Option Progress :=
  match s.verb with
  | none => (Verb.ofName? text).map fun verb => { s with verb := some verb }
  | some _ => s.withPath? text

/-- After the separator every argument is a path. -/
def readPaths (s : Progress) : List String → Invocation
  | [] => s.invocation
  | path :: rest =>
    match s.withPath? path with
    | some s => s.readPaths rest
    | none => .misuse

/-- What is asked for by the arguments so far and those that are left. -/
def read (s : Progress) : List String → Invocation
  | [] => s.invocation
  | arg :: rest =>
    match Argument.ofText arg, rest with
    | .config (some value), rest =>
      match s.withConfig? value with
      | some s => s.read rest
      | none => .misuse
    | .config none, value :: rest =>
      match Argument.ofText value, s.withConfig? value with
      | .word _, some s => s.read rest
      | _, _ => .misuse
    | .config none, [] => .misuse
    | .help, _ => .help
    | .version, _ => if s.verb = none then .version else .misuse
    | .separator, rest => s.readPaths rest
    | .unknownOption, _ => .misuse
    | .word text, rest =>
      if s.verb = none ∧ text = "help" then
        match rest with
        | [] => .help
        | [topic] => if topic = "help" ∨ (Verb.ofName? topic).isSome then .help else .misuse
        | _ => .misuse
      else
        match s.withWord? text with
        | some s => s.read rest
        | none => .misuse

end Progress

/-- What the arguments of a command line ask for. -/
def Invocation.ofArguments (args : List String) : Invocation := Progress.read {} args

end CircuitCache.CommandLine
