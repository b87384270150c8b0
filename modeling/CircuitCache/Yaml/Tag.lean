import CircuitCache.Text.Hex
import CircuitCache.Text.Utf8
import CircuitCache.Yaml.Cursor

/-!
# Tags and directives

A tag names the kind of a node.  It is written in full between angle brackets, or with a handle
that stands for how tags of a family start; a directive before a document may say so.
-/

namespace CircuitCache.Yaml

/-- A tag in full, as the bytes of its text. -/
abbrev Tag := Bytes

namespace Tag

/-- The tag of nodes without a value. -/
def null : Tag := Text.utf8 "tag:yaml.org,2002:null"

/-- The tag of truth values. -/
def bool : Tag := Text.utf8 "tag:yaml.org,2002:bool"

/-- The tag of integers. -/
def int : Tag := Text.utf8 "tag:yaml.org,2002:int"

/-- What the handles stand for that no directive mentions. -/
def knownHandles : List (String × Tag) :=
  [("!", Text.utf8 "!"), ("!!", Text.utf8 "tag:yaml.org,2002:")]

/-! ### Written tags -/

/-- The characters of tags.  Brackets and commas belong to a tag only if it is written in full. -/
def isPart (inFull : Bool) (c : Char) : Bool :=
  isWord c || c ∈ [';', '/', '?', ':', '@', '&', '=', '+', '$', '.', '%', '!', '~', '*', '\'', '(',
    ')'] || (inFull && c ∈ [',', '[', ']'])

/-- How many bytes a character has that starts with this one. -/
def width? (byte : Nat) : Option Nat :=
  if byte < 0x80 then some 1
  else if byte < 0xC0 then none
  else if byte < 0xE0 then some 2
  else if byte < 0xF0 then some 3
  else if byte < 0xF8 then some 4
  else none

/-- The bytes of a tag, in which a percent sign and two digits stand for any byte.  The next
`unfinished` bytes must be written so, since they end a character that was. -/
def bytes? : (unfinished : Nat) → List Char → Option Bytes
  | unfinished, '%' :: a :: b :: rest => do
    let byte ← Text.hexValue? 0 [a, b]
    let more ← if unfinished = 0 then (width? byte).map (· - 1)
      else if 0x80 ≤ byte ∧ byte < 0xC0 then some (unfinished - 1)
      else none
    return UInt8.ofNat byte :: (← bytes? more rest)
  | 0, c :: rest => if c = '%' then none else (bytes? 0 rest).map (UInt8.ofNat c.toNat :: ·)
  | 0, [] => some []
  | _, _ => none

/-- The part of a tag that characters write.  A zero byte ends it. -/
def part? (cs : List Char) : Option Bytes := (bytes? 0 cs).map (·.takeWhile (· ≠ 0))

/-- A part of a tag that may not be missing, and the cursor behind it. -/
def readPart? (inFull : Bool) (c : Cursor) : Option (Bytes × Cursor) :=
  let (cs, c) := c.span (isPart inFull)
  if cs = [] then none else (part? cs).map fun part => (part, c)

/-- The handle at an exclamation mark with a second mark after a name, and the cursor behind it. -/
def readHandle? (c : Cursor) : Option (String × Cursor) := do
  let (name, c) := (← c.expect? '!').span isWord
  return ("!" ++ String.ofList name ++ "!", ← c.expect? '!')

/-- A tag at an exclamation mark: its handle, which is empty for a tag in full, what follows the
handle, and the cursor behind it.  A lone exclamation mark is a tag in full. -/
def read? (c : Cursor) : Option (String × Bytes × Cursor) := do
  match (← c.expect? '!').expect? '<', readHandle? c with
  | some c, _ => do
    let (part, c) ← readPart? true c
    return ("", part, ← c.expect? '>')
  | none, some (handle, c) => do
    let (part, c) ← readPart? false c
    return (handle, part, c)
  | none, none => do
    let (cs, c) := (c.advance 1).span (isPart false)
    let part ← part? cs
    if part = [] then return ("", Text.utf8 "!", c) else return ("!", part, c)

/-- The tag with a handle in full, which is known only if the handle is. -/
def expand? (handles : List (String × Tag)) (handle : String) (part : Bytes) : Option Tag :=
  if handle = "" then some part
  else ((handles ++ knownHandles).lookup handle).map (· ++ part)

end Tag

/-! ### Directives -/

/-- What may be said before a document: the version of the language, and what a handle stands
for. -/
inductive Directive where
  | version (major minor : Nat)
  | handle (name : String) (start : Tag)
  deriving DecidableEq, Repr

namespace Directive

/-- The most digits of a part of a version. -/
def maxDigits : Nat := 9

/-- A part of a version, and the cursor behind it. -/
def readNumber? (c : Cursor) : Option (Nat × Cursor) :=
  let (digits, c) := c.span Char.isDigit
  if digits = [] ∨ maxDigits < digits.length then none
  else some (digits.foldl (fun n d => 10 * n + (d.toNat - '0'.toNat)) 0, c)

/-- The two parts of a version directive. -/
def readVersion? (c : Cursor) : Option (Directive × Cursor) := do
  let (major, c) ← readNumber? c
  let (minor, c) ← readNumber? (← c.expect? '.')
  return (.version major minor, c)

/-- A handle and what it stands for, behind which white space follows. -/
def readHandle? (c : Cursor) : Option (Directive × Cursor) := do
  let (name, c) ← (Tag.readHandle? c).or ((c.expect? '!').map fun c => ("!", c))
  if !c.rest.head?.any isBlank then none
  else
    let (start, c) ← Tag.readPart? true (c.span isBlank).2
    if startsBlank c.rest then return (.handle name start, c) else none

/-- A directive at a percent sign, and the cursor behind its line. -/
def read? (c : Cursor) : Option (Directive × Cursor) := do
  let (name, c) := (← c.expect? '%').span isWord
  if !startsBlank c.rest then none
  else
    let value := (c.span isBlank).2
    let (directive, c) ← if name = ['Y', 'A', 'M', 'L'] then readVersion? value
      else if name = ['T', 'A', 'G'] then readHandle? value
      else none
    return (directive, ← c.skipLine?)

end Directive

end CircuitCache.Yaml
