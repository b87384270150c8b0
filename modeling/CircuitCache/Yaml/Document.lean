import CircuitCache.Yaml.Node
import CircuitCache.Yaml.Token.Lexer

/-!
# Documents

A text holds one document: directives, a node, and a mark at the end, of which any may be missing.
-/

namespace CircuitCache.Yaml

/-- A tree of nodes, and the nodes in it that aliases refer to. -/
structure Document where
  root : Node
  anchored : List (Nat × Node)
  deriving Repr

namespace Document

/-- The document with a root.  Its last anchored node comes first, so that it is found first. -/
def ofRoot (root : Node) : Document := ⟨root, root.anchored.reverse⟩

/-- The node that a node stands for.  An alias stands for the last node that has its number. -/
def follow? (d : Document) : Node → Option Node
  | .alias number => d.anchored.lookup number
  | n => some n

/-! ### Directives -/

/-- Whether a document in a version of the language can be read. -/
def isKnownVersion (major minor : Nat) : Bool := major = 1 ∧ (minor = 1 ∨ minor = 2)

/-- The handles that directives mention, and the tokens after these.  The version may be given once,
and a handle may be given a meaning once. -/
def readDirectives? (hasVersion : Bool) (handles : Node.Handles) :
    List Token → Option (Node.Handles × List Token)
  | .directive (.version major minor) :: rest =>
    if hasVersion ∨ !isKnownVersion major minor then none else readDirectives? true handles rest
  | .directive (.handle name start) :: rest =>
    if handles.any (·.1 = name) then none
    else readDirectives? hasVersion ((name, start) :: handles) rest
  | rest => some (handles, rest)

/-! ### Reading -/

/-- Whether a document ends before these tokens. -/
def endsBefore : List Token → Bool
  | [] => true
  | .directive _ :: _ => true
  | .documentStart :: _ => true
  | .documentEnd :: _ => true
  | _ => false

/-- The node of a document after its mark, which may be missing. -/
def readRoot? (handles : Node.Handles) (ts : List Token) : Option (Node × List Token) :=
  if endsBefore ts then some (.empty {}, ts)
  else Node.read? handles (4 * ts.length + 4) true false ts

/-- The root of a document and the tokens after it.  After directives there must be a mark, and a
document without a mark must have a node. -/
def readDocument? (ts : List Token) : Option (Node × List Token) := do
  let (handles, rest) ← readDirectives? false [] ts
  match rest with
  | .documentStart :: rest => readRoot? handles rest
  | [] => if ts = [] then return (.empty {}, []) else none
  | .documentEnd :: _ => none
  | rest => if rest.length < ts.length then none else readRoot? handles rest

/-- The only document of a text; one without a node is empty. -/
def ofText? (text : String) : Option Document := do
  let (root, rest) ← readDocument? (← tokens? text)
  if rest.all (· = .documentEnd) then return ofRoot root else none

end Document

end CircuitCache.Yaml
