import CircuitCache.Yaml.Cursor

/-!
# Block scalars

A block scalar is written without quotes on lines of its own.  A literal one keeps its line breaks,
and a folded one keeps those around lines that start with a blank.
-/

namespace CircuitCache.Yaml

/-! ### Headers -/

/-- What becomes of the line breaks at the end of a block scalar. -/
inductive Chomping where
  | clip
  | strip
  | keep
  deriving DecidableEq, Repr

namespace Chomping

/-- What the mark in a header says about the line breaks at the end. -/
def ofChar? (c : Char) : Option Chomping :=
  if c = '+' then some keep else if c = '-' then some strip else none

/-- What remains of the last line breaks: one of them, none, or all. -/
def apply (breaks : List Char) : Chomping → List Char
  | clip => breaks.take 1
  | strip => []
  | keep => breaks

end Chomping

/-- How much further right than the collection around it a block scalar is said to stand. -/
def indentOf? (c : Char) : Option Nat :=
  if '1' ≤ c ∧ c ≤ '9' then some (c.toNat - '0'.toNat) else none

/-- The header of a block scalar, an indentation and a chomping mark in either order, and how many
characters it has. -/
def blockHeader : List Char → Option Nat × Chomping × Nat
  | [] => (none, .clip, 0)
  | c :: rest =>
    match Chomping.ofChar? c, indentOf? c with
    | some how, _ =>
      match rest.head?.bind indentOf? with
      | some indent => (some indent, how, 2)
      | none => (none, how, 1)
    | none, some indent =>
      match rest.head?.bind Chomping.ofChar? with
      | some how => (some indent, how, 2)
      | none => (some indent, .clip, 1)
    | none, none => (none, .clip, 0)

/-! ### Lines -/

/-- A line of a block scalar without its indentation, and the line breaks from its end to the next
line that has text. -/
structure BlockLine where
  text : List Char
  breaks : List Char
  deriving DecidableEq, Repr

/-- Whether a line is indented further than the block. -/
def BlockLine.startsBlank (line : BlockLine) : Bool := line.text.head?.any isBlank

/-- Past empty lines and the indentation of the next line, which may be known: the column of the
furthest blank, the line breaks, and the cursor.  No tab may stand in an indentation. -/
def margin (indent : Option Nat) : (furthest : Nat) → (breaks : List Char) → Position →
    List Char → Option (Nat × List Char × Cursor)
  | furthest, breaks, p, [] => some (max furthest p.column, breaks, ⟨p, []⟩)
  | furthest, breaks, p, c :: rest =>
    let furthest := max furthest p.column
    if isBreak c then margin indent furthest (breaks ++ [c]) (p.after c) rest
    else if indent.any (· ≤ p.column) then some (furthest, breaks, ⟨p, c :: rest⟩)
    else if c = ' ' then margin indent furthest breaks (p.after c) rest
    else if c = '\t' then none
    else some (furthest, breaks, ⟨p, c :: rest⟩)

/-- The lines of a block scalar from the first one that has text, as long as they start in the
column `indent`.  The fuel bounds their number. -/
def blockLines (indent : Nat) : (fuel : Nat) → Cursor → Option (List BlockLine × Cursor)
  | 0, _ => none
  | fuel + 1, c =>
    if c.column ≠ indent ∨ c.rest = [] then some ([], c)
    else do
      let (text, c) := c.span (!isBreak ·)
      let first := c.rest.take 1
      let c := c.advance 1
      let (_, more, c) ← margin (some indent) 0 [] c.position c.rest
      let (lines, c) ← blockLines indent fuel c
      return (⟨text, first ++ more⟩ :: lines, c)

/-- Lines with what stands between them.  Breaks are folded only between two lines that start with
text. -/
def joinLines (isFolded : Bool) : List BlockLine → List Char
  | [] => []
  | [line] => line.text
  | line :: next :: rest =>
    let gap := if isFolded && !line.startsBlank && !next.startsBlank then foldBreaks line.breaks
      else line.breaks
    line.text ++ gap ++ joinLines isFolded (next :: rest)

/-- The text of lines after some empty ones. -/
def blockText (isFolded : Bool) (how : Chomping) (empty : List Char) (lines : List BlockLine) :
    List Char :=
  match lines.getLast? with
  | some last => empty ++ joinLines isFolded lines ++ how.apply last.breaks
  | none => if how = .keep then empty else []

/-- The text of a block scalar whose mark is at the cursor, in a place where text starts in column
`least` or further right, and the cursor behind it. -/
def blockScalar? (isFolded : Bool) (least : Nat) (c : Cursor) : Option (List Char × Cursor) := do
  let c := c.advance 1
  let (indent, how, size) := blockHeader c.rest
  let c ← (c.advance size).skipLine?
  let indent := indent.map (least - 1 + ·)
  let (furthest, empty, c) ← margin indent 0 [] c.position c.rest
  let indent := indent.getD (max (max furthest least) 1)
  let (lines, c) ← blockLines indent (c.rest.length + 1) c
  return (blockText isFolded how empty lines, c)

end CircuitCache.Yaml
