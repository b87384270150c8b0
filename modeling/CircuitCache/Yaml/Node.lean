import CircuitCache.Yaml.Token

/-!
# Nodes

Tokens form a tree of nodes: scalars, sequences, mappings, and aliases of nodes elsewhere in the
tree.
-/

namespace CircuitCache.Yaml

/-- What may stand before a node. -/
structure Properties where
  /-- The number of the anchor. -/
  anchor : Option Nat := none
  tag : Option Tag := none
  deriving DecidableEq, Repr

/-- A node as it is written; an alias is not yet replaced by what it stands for. -/
inductive Node where
  | alias (number : Nat)
  | scalar (properties : Properties) (style : ScalarStyle) (text : String)
  | sequence (properties : Properties) (items : List Node)
  | mapping (properties : Properties) (members : List (Node × Node))
  deriving Repr

namespace Node

/-- The scalar that stands where nothing is written. -/
def empty (p : Properties) : Node := .scalar p .plain ""

/-! ### Anchored nodes -/

/-- A node under the number of its anchor, if it has one. -/
def label (p : Properties) (n : Node) : List (Nat × Node) :=
  match p.anchor with
  | some number => [(number, n)]
  | none => []

mutual

/-- The nodes in a tree that have anchors, under the numbers of these, in the order of the text. -/
def anchored : Node → List (Nat × Node)
  | .alias _ => []
  | .scalar p style text => label p (.scalar p style text)
  | .sequence p items => label p (.sequence p items) ++ anchoredItems items
  | .mapping p members => label p (.mapping p members) ++ anchoredMembers members

/-- The anchored nodes in the items of a sequence. -/
def anchoredItems : List Node → List (Nat × Node)
  | [] => []
  | item :: rest => anchored item ++ anchoredItems rest

/-- The anchored nodes in the members of a mapping, in keys as well as in values. -/
def anchoredMembers : List (Node × Node) → List (Nat × Node)
  | [] => []
  | (key, value) :: rest => anchored key ++ anchored value ++ anchoredMembers rest

end

/-! ### Reading -/

/-- What the handles of tags stand for. -/
abbrev Handles := List (String × Tag)

/-- An anchor and a tag in either order, of which any may be missing, and the tokens after them. -/
def readProperties? (handles : Handles) : List Token → Option (Properties × List Token)
  | .anchor n :: .tag handle part :: rest =>
    (Tag.expand? handles handle part).map fun tag => (⟨some n, some tag⟩, rest)
  | .tag handle part :: .anchor n :: rest =>
    (Tag.expand? handles handle part).map fun tag => (⟨some n, some tag⟩, rest)
  | .anchor n :: rest => some (⟨some n, none⟩, rest)
  | .tag handle part :: rest =>
    (Tag.expand? handles handle part).map fun tag => (⟨none, some tag⟩, rest)
  | rest => some ({}, rest)

/-- Whether a node is missing before tokens, which one of `ends` at their front shows. -/
def isMissing (ends : List Token) (ts : List Token) : Bool := ts.head?.any (· ∈ ends)

mutual

/-- A node, and the tokens after it.  Block collections are read in a block only, and a sequence
that is no further right than the mapping around it only as a part of that mapping.  With an anchor
or a tag the rest of a node may be missing.  The fuel bounds the number of calls. -/
def read? (handles : Handles) : (fuel : Nat) → (inBlock inMapping : Bool) → List Token →
    Option (Node × List Token)
  | 0, _, _, _ => none
  | _ + 1, _, _, .alias n :: rest => some (.alias n, rest)
  | fuel + 1, inBlock, inMapping, ts => do
    let (p, ts) ← readProperties? handles ts
    let missing := if p = {} then none else some (empty p, ts)
    match ts with
    | .scalar style text :: rest => return (.scalar p style text, rest)
    | .flowSequence :: rest =>
      let (items, rest) ← readFlowItems? handles fuel rest
      return (.sequence p items, rest)
    | .flowMapping :: rest =>
      let (members, rest) ← readFlowMembers? handles fuel rest
      return (.mapping p members, rest)
    | .item :: _ =>
      if inMapping then
        let (items, rest) ← readItems? handles fuel false ts
        return (.sequence p items, rest)
      else missing
    | .blockSequence :: rest =>
      if inBlock then
        let (items, rest) ← readItems? handles fuel true rest
        return (.sequence p items, rest)
      else missing
    | .blockMapping :: rest =>
      if inBlock then
        let (members, rest) ← readMembers? handles fuel rest
        return (.mapping p members, rest)
      else missing
    | _ => missing

/-- A node that is empty where one of some tokens follows. -/
def readOr? (handles : Handles) : (fuel : Nat) → (ends : List Token) →
    (inBlock inMapping : Bool) → List Token → Option (Node × List Token)
  | 0, _, _, _, _ => none
  | fuel + 1, ends, inBlock, inMapping, ts =>
    if isMissing ends ts then some (empty {}, ts) else read? handles fuel inBlock inMapping ts

/-- A value after its colon, and an empty one without a colon. -/
def readValue? (handles : Handles) : (fuel : Nat) → (ends : List Token) → (inBlock : Bool) →
    List Token → Option (Node × List Token)
  | 0, _, _, _ => none
  | fuel + 1, ends, inBlock, .value :: rest => readOr? handles fuel ends inBlock inBlock rest
  | _ + 1, _, _, ts => some (empty {}, ts)

/-- The items of a sequence in a block.  One that is in the column of a mapping has no end of its
own. -/
def readItems? (handles : Handles) : (fuel : Nat) → (hasEnd : Bool) → List Token →
    Option (List Node × List Token)
  | 0, _, _ => none
  | fuel + 1, hasEnd, .item :: rest => do
    let ends := if hasEnd then [Token.item, .blockEnd] else [.item, .key, .value, .blockEnd]
    let (item, rest) ← readOr? handles fuel ends true false rest
    let (items, rest) ← readItems? handles fuel hasEnd rest
    return (item :: items, rest)
  | _ + 1, true, .blockEnd :: rest => some ([], rest)
  | _ + 1, true, _ => none
  | _ + 1, false, ts => some ([], ts)

/-- The members of a mapping in a block. -/
def readMembers? (handles : Handles) : (fuel : Nat) → List Token →
    Option (List (Node × Node) × List Token)
  | 0, _ => none
  | fuel + 1, .key :: rest => do
    let ends := [Token.key, .value, .blockEnd]
    let (key, rest) ← readOr? handles fuel ends true true rest
    let (value, rest) ← readValue? handles fuel ends true rest
    let (members, rest) ← readMembers? handles fuel rest
    return ((key, value) :: members, rest)
  | _ + 1, .blockEnd :: rest => some ([], rest)
  | _ + 1, _ => none

/-- The items of a sequence in brackets.  A single member may stand for a mapping; where its key is
missing, the token that shows this is left out. -/
def readFlowItems? (handles : Handles) : (fuel : Nat) → List Token →
    Option (List Node × List Token)
  | 0, _ => none
  | _ + 1, .flowSequenceEnd :: rest => some ([], rest)
  | fuel + 1, .key :: rest => do
    let ends := [Token.comma, .flowSequenceEnd]
    let (key, after) ← readOr? handles fuel (.value :: ends) false false rest
    let after := if isMissing (.value :: ends) rest then after.drop 1 else after
    let (value, rest) ← readValue? handles fuel ends false after
    let (items, rest) ← readFlowRest? handles fuel rest
    return (.mapping {} [(key, value)] :: items, rest)
  | fuel + 1, ts => do
    let (item, rest) ← read? handles fuel false false ts
    let (items, rest) ← readFlowRest? handles fuel rest
    return (item :: items, rest)

/-- What follows an item of a sequence in brackets. -/
def readFlowRest? (handles : Handles) : (fuel : Nat) → List Token →
    Option (List Node × List Token)
  | fuel + 1, .comma :: rest => readFlowItems? handles fuel rest
  | _ + 1, .flowSequenceEnd :: rest => some ([], rest)
  | _, _ => none

/-- The members of a mapping in brackets.  A key may stand alone. -/
def readFlowMembers? (handles : Handles) : (fuel : Nat) → List Token →
    Option (List (Node × Node) × List Token)
  | 0, _ => none
  | _ + 1, .flowMappingEnd :: rest => some ([], rest)
  | fuel + 1, .key :: rest => do
    let ends := [Token.comma, .flowMappingEnd]
    let (key, rest) ← readOr? handles fuel (.value :: ends) false false rest
    let (value, rest) ← readValue? handles fuel ends false rest
    let (members, rest) ← readFlowMembersRest? handles fuel rest
    return ((key, value) :: members, rest)
  | fuel + 1, ts => do
    let (key, rest) ← read? handles fuel false false ts
    let (members, rest) ← readFlowMembersRest? handles fuel rest
    return ((key, empty {}) :: members, rest)

/-- What follows a member of a mapping in brackets. -/
def readFlowMembersRest? (handles : Handles) : (fuel : Nat) → List Token →
    Option (List (Node × Node) × List Token)
  | fuel + 1, .comma :: rest => readFlowMembers? handles fuel rest
  | _ + 1, .flowMappingEnd :: rest => some ([], rest)
  | _, _ => none

end

end Node

end CircuitCache.Yaml
