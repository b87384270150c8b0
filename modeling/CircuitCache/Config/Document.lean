import CircuitCache.Config
import CircuitCache.Text.Natural
import CircuitCache.Yaml.Document

/-!
# Configuration documents

A configuration is read from a YAML document and may then be overridden by environment variables.
A document is a mapping of known fields, of which any may be missing; other keys are left aside.
-/

namespace CircuitCache

open Yaml (Node ScalarStyle)

/-- Why a configuration is refused. -/
inductive ConfigError where
  | unreadable
  | zeroLimit
  | badFlag (value : String) (flag : String)
  | badLimit (value : String) (cause : Text.NaturalError)
  deriving DecidableEq, Repr

namespace ConfigError

/-- What is shown for an error of the configuration. -/
def message : ConfigError → String
  | unreadable => "failed to parse cache config"
  | zeroLimit => "submission_size_limit must be at least 1"
  | badFlag value _ => "invalid JOBCACHE_FAST_MODE value `" ++ value ++ "`"
  | badLimit value _ => "invalid JOBCACHE_SUBMISSION_LIMIT value `" ++ value ++ "`"

/-- The cause of the error in words, if it has one. -/
def cause? : ConfigError → Option String
  | unreadable => some "the text is no configuration document"
  | zeroLimit => none
  | badFlag _ flag => some ("expected a boolean, found `" ++ flag ++ "`")
  | badLimit _ cause => some cause.message

end ConfigError

namespace Config

/-! ## Scalars -/

/-- The value of digits in a base, which none of them may exceed. -/
def digitsIn? (base : Nat) (cs : List Char) : Option Nat :=
  match cs.mapM fun c => (Text.hexDigit? c).filter (· < base) with
  | none | some [] => none
  | some ds => some (ds.foldl (fun n d => base * n + d) 0)

/-- The value of digits, in another base after a letter; no zero stands before other digits. -/
def magnitude? : List Char → Option Nat
  | '0' :: 'x' :: rest => digitsIn? 16 rest
  | '0' :: 'o' :: rest => digitsIn? 8 rest
  | '0' :: 'b' :: rest => digitsIn? 2 rest
  | cs => if cs.length > 1 ∧ cs.head? = some '0' then none else digitsIn? 10 cs

/-- A number of 64 bits, perhaps after a plus. -/
def natOfText? (text : String) : Option Nat :=
  let cs := text.toList
  (magnitude? (if cs.head? = some '+' then cs.drop 1 else cs)).filter (· < UInt64.size)

/-- The truth value that a plain scalar denotes, in one of three spellings each. -/
def boolOfText? (text : String) : Option Bool :=
  if text ∈ ["true", "True", "TRUE"] then some true
  else if text ∈ ["false", "False", "FALSE"] then some false
  else none

/-- Whether a plain scalar denotes that there is no value. -/
def isNull (text : String) : Bool := text ∈ ["~", "null", "Null", "NULL"]

/-- The text of a scalar that may denote something other than a text: a plain one, or a literal one
with the tag of what it denotes. -/
def denoting? (tag : Yaml.Tag) : Node → Option String
  | .scalar p style text =>
    if style = .plain ∨ (style = .literal ∧ p.tag = some tag) then some text else none
  | _ => none

/-- The 64-bit number that a node denotes. -/
def natOf? (n : Node) : Option Nat := (denoting? .int n).bind natOfText?

/-- The truth value that a node denotes. -/
def boolOf? (n : Node) : Option Bool := (denoting? .bool n).bind boolOfText?

/-- A text, none for a plain null.  With a tag only a null that is tagged as one is none, and
nothing else may be tagged so. -/
def targetOf? : Node → Option (Option String)
  | .scalar p .plain text =>
    match p.tag with
    | none => some (if text = "" ∨ isNull text then none else some text)
    | some tag => if tag ≠ .null then some (some text) else if isNull text then some none else none
  | .scalar _ _ text => some (some text)
  | _ => none

/-! ## Documents -/

/-- The field for the greatest number of programs in a chunk. -/
def limitField : String := "submission_size_limit"

/-- The field that asks for patching in place. -/
def fastField : String := "fast_mode"

/-- The field for the path of the cache file. -/
def targetField : String := "persistence_target"

/-- The field that allows chunks to grow from their first slot. -/
def reuseField : String := "reuse_across_chunks"

/-- The fields of a configuration; others are ignored. -/
def fieldNames : List String := [limitField, fastField, targetField, reuseField]

/-- A configuration with one field read from a node. -/
def setField? (c : Config) (name : String) (v : Node) : Option Config :=
  if name = limitField then (natOf? v).map fun n => { c with submissionSizeLimit := n }
  else if name = fastField then (boolOf? v).map fun b => { c with fastMode := b }
  else if name = targetField then
    (targetOf? v).map fun target => { c with persistenceTarget := target }
  else if name = reuseField then (boolOf? v).map fun b => { c with reuseAcrossChunks := b }
  else some c

/-- The text of a key, which must be a scalar. -/
def keyOf? : Node → Option String
  | .scalar _ _ text => some text
  | _ => none

/-- A configuration with the fields of members, none of which may be given twice. -/
def setFields? (d : Yaml.Document) (seen : List String) (c : Config) :
    List (Node × Node) → Option Config
  | [] => some c
  | (key, value) :: rest => do
    let name ← (d.follow? key).bind keyOf?
    if name ∈ seen then none
    else if name ∈ fieldNames then
      setFields? d (name :: seen) (← c.setField? name (← d.follow? value)) rest
    else setFields? d seen c rest

/-- The configuration that a document describes: a mapping, or nothing at all. -/
def ofDocument? (d : Yaml.Document) : Option Config :=
  match d.root with
  | .scalar _ .plain "" => some {}
  | .mapping _ members => setFields? d [] {} members
  | _ => none

/-- Refuses a limit that no program fits. -/
def validate (c : Config) : Except ConfigError Config :=
  if c.submissionSizeLimit = 0 then .error .zeroLimit else .ok c

/-- The configuration that a document describes. -/
def ofYaml (text : String) : Except ConfigError Config :=
  match (Yaml.Document.ofText? text).bind ofDocument? with
  | none => .error .unreadable
  | some c => c.validate

end Config

end CircuitCache
