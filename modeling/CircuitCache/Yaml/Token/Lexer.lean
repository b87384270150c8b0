import CircuitCache.Yaml.BlockScalar
import CircuitCache.Yaml.Scalar
import CircuitCache.Yaml.Token

/-!
# Reading tokens

A text is cut into tokens from the left.  Whether something is a key shows only at the colon after
it, so a lexer remembers where one may have started and announces it there afterwards.
-/

namespace CircuitCache.Yaml

/-- A place where a key may have started. -/
structure KeyStart where
  /-- How many tokens come before the key. -/
  before : Nat
  position : Position
  /-- Whether only a key can stand here. -/
  isRequired : Bool
  deriving DecidableEq, Repr

/-- A lexer between two tokens. -/
structure Lexer where
  cursor : Cursor
  /-- The tokens so far, the last one first. -/
  tokens : List Token := []
  /-- The columns of the block collections around the cursor, the innermost first. -/
  columns : List Nat := []
  /-- Where a key may have started within the innermost brackets. -/
  keyStart : Option KeyStart := none
  /-- Where keys may have started outside of each pair of brackets, the innermost first. -/
  outerKeyStarts : List (Option KeyStart) := []
  /-- Whether a key may start at the cursor. -/
  allowsKey : Bool := true
  /-- The number that each name of an anchor has got last. -/
  anchors : List (String × Nat) := []
  deriving Repr

namespace Lexer

/-! ### Parts of a lexer -/

/-- Whether the cursor is between brackets. -/
def inFlow (s : Lexer) : Bool := !s.outerKeyStarts.isEmpty

/-- The first column that lies within the innermost block collection. -/
def least (s : Lexer) : Nat :=
  match s.columns with
  | [] => 0
  | column :: _ => column + 1

/-- The lexer with one more token, behind which it is. -/
def push (s : Lexer) (t : Token) (c : Cursor) : Lexer :=
  { s with tokens := t :: s.tokens, cursor := c }

/-- The lexer behind a token of as many characters. -/
def pushNext (s : Lexer) (t : Token) (size : Nat) : Lexer := s.push t (s.cursor.advance size)

/-- The lexer with tokens, the last one first, put in after the first few. -/
def insert (s : Lexer) (before : Nat) (ts : List Token) : Lexer :=
  let count := s.tokens.length - before
  { s with tokens := s.tokens.take count ++ ts ++ s.tokens.drop count }

/-! ### Keys -/

/-- Gives up that a key may have started, which must not be if one is required. -/
def forgetKey? (s : Lexer) : Option Lexer :=
  if s.keyStart.any (·.isRequired) then none else some { s with keyStart := none }

/-- Remembers that a key may start here, if one may.  In the column of the innermost block
collection only a key may stand. -/
def startKey? (s : Lexer) : Option Lexer :=
  if !s.allowsKey then some s
  else
    s.forgetKey?.map fun s => { s with
      keyStart := some ⟨s.tokens.length, s.cursor.position,
        !s.inFlow && s.least = s.cursor.column + 1⟩ }

/-- How many bytes there may be from the start of a key to its colon. -/
def maxKeySize : Nat := 1024

/-- Whether what started is too far away to be a key: on another line or too long. -/
def KeyStart.isLost (k : KeyStart) (p : Position) : Bool :=
  k.position.line < p.line || k.position.offset + maxKeySize < p.offset

/-- Gives up the keys that are too far away. -/
def loseKeys? (s : Lexer) : Option Lexer :=
  let isLost (k : KeyStart) : Bool := KeyStart.isLost k s.cursor.position
  if (s.keyStart :: s.outerKeyStarts).any (·.any fun k => isLost k && k.isRequired) then none
  else
    some { s with
      keyStart := s.keyStart.filter (!isLost ·)
      outerKeyStarts := s.outerKeyStarts.map (·.filter (!isLost ·)) }

/-! ### Block collections -/

/-- Starts a block collection in a column further right than the one around it, if it is not the
same one; its token comes after the first few. -/
def openBlock (s : Lexer) (column before : Nat) (t : Token) : Lexer :=
  if s.inFlow ∨ column < s.least then s
  else { s.insert before [t] with columns := column :: s.columns }

/-- Ends the block collections that are not kept. -/
def keepBlocks (s : Lexer) (kept : List Nat) : Lexer :=
  if s.inFlow then s
  else { s with
    columns := kept
    tokens := List.replicate (s.columns.length - kept.length) .blockEnd ++ s.tokens }

/-- Ends the block collections that are further right than the cursor. -/
def closeBlocks (s : Lexer) : Lexer :=
  s.keepBlocks (s.columns.dropWhile (s.cursor.column < ·))

/-- Ends all block collections, before a mark or the end of the text. -/
def closeAll? (s : Lexer) : Option Lexer :=
  (s.keepBlocks []).forgetKey?.map ({ · with allowsKey := false })

/-! ### White space -/

/-- Past white space, comments, line breaks and a byte order mark at the start of each line; and
whether a key may start there, since outside brackets one may on a new line.  Where a key may start
a tab is no white space, except between brackets. -/
def skipSpace (inFlow : Bool) : (allowsKey inComment : Bool) → Position → List Char → Bool × Cursor
  | allowsKey, _, p, [] => (allowsKey, ⟨p, []⟩)
  | allowsKey, inComment, p, c :: rest =>
    if isBreak c then skipSpace inFlow (allowsKey || !inFlow) false (p.after c) rest
    else if inComment || c = ' ' || (c = '\t' && (inFlow || !allowsKey))
        || (c = byteOrderMark && p.column = 0) then
      skipSpace inFlow allowsKey inComment (p.after c) rest
    else if c = '#' then skipSpace inFlow allowsKey true (p.after c) rest
    else (allowsKey, ⟨p, c :: rest⟩)

/-- Past white space to the next token. -/
def settle? (s : Lexer) : Option Lexer :=
  let (allowsKey, c) := skipSpace s.inFlow s.allowsKey false s.cursor.position s.cursor.rest
  { s with cursor := c, allowsKey := allowsKey }.loseKeys?.map closeBlocks

/-! ### Tokens -/

/-- A directive, in front of which all blocks end. -/
def directive? (s : Lexer) : Option Lexer := do
  let s ← s.closeAll?
  let (d, c) ← Directive.read? s.cursor
  return s.push (.directive d) c

/-- A mark around a document. -/
def mark? (s : Lexer) (t : Token) : Option Lexer := do return (← s.closeAll?).pushNext t 3

/-- An opening bracket, after which a key may start. -/
def openFlow? (s : Lexer) (t : Token) : Option Lexer := do
  let s ← s.startKey?
  return { s with
    outerKeyStarts := s.keyStart :: s.outerKeyStarts, keyStart := none, allowsKey := true
    : Lexer }.pushNext t 1

/-- A closing bracket, behind which no key may start. -/
def closeFlow? (s : Lexer) (t : Token) : Option Lexer := do
  let s ← s.forgetKey?
  let s := match s.outerKeyStarts with
    | [] => s
    | outer :: rest => { s with keyStart := outer, outerKeyStarts := rest }
  return { s with allowsKey := false : Lexer }.pushNext t 1

/-- A comma between brackets, after which a key may start. -/
def comma? (s : Lexer) : Option Lexer := do
  return { ← s.forgetKey? with allowsKey := true : Lexer }.pushNext .comma 1

/-- The dash before an item, which is possible only where a key may start. -/
def item? (s : Lexer) : Option Lexer :=
  if !s.inFlow && !s.allowsKey then none
  else do
    let s ← (s.openBlock s.cursor.column s.tokens.length .blockSequence).forgetKey?
    return { s with allowsKey := true : Lexer }.pushNext .item 1

/-- The question mark before a key. -/
def key? (s : Lexer) : Option Lexer :=
  if !s.inFlow && !s.allowsKey then none
  else do
    let s ← (s.openBlock s.cursor.column s.tokens.length .blockMapping).forgetKey?
    return { s with allowsKey := !s.inFlow : Lexer }.pushNext .key 1

/-- The colon before a value.  If a key has started it is announced; otherwise a question mark has
announced it. -/
def value? (s : Lexer) : Option Lexer :=
  match s.keyStart with
  | some k =>
    let s := (s.insert k.before [.key]).openBlock k.position.column k.before .blockMapping
    some ({ s with keyStart := none, allowsKey := false : Lexer }.pushNext .value 1)
  | none =>
    if !s.inFlow && !s.allowsKey then none
    else
      let s := s.openBlock s.cursor.column s.tokens.length .blockMapping
      some ({ s with allowsKey := !s.inFlow : Lexer }.pushNext .value 1)

/-- The name at an ampersand or asterisk, and the cursor behind it. -/
def name? (c : Cursor) : Option (String × Cursor) :=
  let (name, c) := (c.advance 1).span isWord
  let ends := startsBlank c.rest
    || c.rest.head?.any (· ∈ ['?', ':', ',', ']', '\x7d', '%', '@', '\x60'])
  if name = [] ∨ !ends then none else some (String.ofList name, c)

/-- An anchor.  Its number is how many names there are already: a name that is given again gets a
new number, which the next new name gets as well. -/
def anchor? (s : Lexer) : Option Lexer := do
  let s ← s.startKey?
  let (name, c) ← name? s.cursor
  let number := s.anchors.length
  return { s with
    allowsKey := false
    anchors := (name, number) :: s.anchors.filter (·.1 ≠ name) : Lexer }.push (.anchor number) c

/-- An alias, which must name an anchor that came before it. -/
def alias? (s : Lexer) : Option Lexer := do
  let s ← s.startKey?
  let (name, c) ← name? s.cursor
  let number ← s.anchors.lookup name
  return { s with allowsKey := false : Lexer }.push (.alias number) c

/-- A tag, behind which white space follows, or between brackets a comma. -/
def tag? (s : Lexer) : Option Lexer := do
  let s ← s.startKey?
  let (handle, part, c) ← Tag.read? s.cursor
  if startsBlank c.rest ∨ (s.inFlow ∧ c.rest.head? = some ',') then
    return { s with allowsKey := false : Lexer }.push (.tag handle part) c
  else none

/-- A block scalar, behind which a key may start. -/
def blockScalar? (s : Lexer) (isFolded : Bool) : Option Lexer := do
  let s ← s.forgetKey?
  let (text, c) ← Yaml.blockScalar? isFolded s.least s.cursor
  let style := if isFolded then ScalarStyle.folded else .literal
  return { s with allowsKey := true : Lexer }.push (.scalar style (String.ofList text)) c

/-- A scalar between quotes, which may be a key. -/
def quoted? (s : Lexer) : Option Lexer := do
  let s ← s.startKey?
  let (text, c) ← Yaml.quoted? s.cursor
  return { s with allowsKey := false : Lexer }.push (.scalar .quoted (String.ofList text)) c

/-- A plain scalar.  If a line ends behind it, a key may start there. -/
def plain? (s : Lexer) : Option Lexer := do
  let s ← s.startKey?
  let (text, gap, c) ← plain s.inFlow s.least .none s.cursor.position s.cursor.rest
  return { s with allowsKey := gap.isBroken : Lexer }.push (.scalar .plain (String.ofList text)) c

/-- The lexer behind the token at its cursor, if there is one. -/
def next? (s : Lexer) : Option Lexer :=
  match s.cursor.rest with
  | [] => none
  | c :: rest =>
    let startsLine := s.cursor.column = 0
    let isIndicator := s.inFlow ∨ startsBlank rest
    if startsLine ∧ c = '%' then s.directive?
    else if startsLine ∧ startsMark (c :: rest) then
      s.mark? (if c = '-' then .documentStart else .documentEnd)
    else if c = '[' then s.openFlow? .flowSequence
    else if c = '\x7b' then s.openFlow? .flowMapping
    else if c = ']' then s.closeFlow? .flowSequenceEnd
    else if c = '\x7d' then s.closeFlow? .flowMappingEnd
    else if c = ',' then s.comma?
    else if c = '-' ∧ startsBlank rest then s.item?
    else if c = '?' ∧ isIndicator then s.key?
    else if c = ':' ∧ isIndicator then s.value?
    else if c = '*' then s.alias?
    else if c = '&' then s.anchor?
    else if c = '!' then s.tag?
    else if c = '|' ∧ !s.inFlow then s.blockScalar? false
    else if c = '>' ∧ !s.inFlow then s.blockScalar? true
    else if c = '\'' ∨ c = '"' then s.quoted?
    else if startsPlain s.inFlow (c :: rest) then s.plain?
    else none

/-- The tokens from a lexer to the end of the text.  The fuel bounds the number of tokens yet to be
read. -/
def run? : (fuel : Nat) → Lexer → Option (List Token)
  | 0, _ => none
  | fuel + 1, s => do
    let s ← s.settle?
    if s.cursor.rest = [] then return (← s.closeAll?).tokens.reverse
    else run? fuel (← s.next?)

end Lexer

/-- The tokens of a text.  Each takes a character at least, so the fuel suffices. -/
def tokens? (text : String) : Option (List Token) := do
  let c ← Cursor.ofText? text
  Lexer.run? (c.rest.length + 1) { cursor := c }

end CircuitCache.Yaml
