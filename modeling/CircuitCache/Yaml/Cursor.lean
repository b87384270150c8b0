/-!
# Places in a text

A cursor is a position in a text together with what follows it.  Block structure is a matter of
columns, and a key must end on its line and be short, so a position counts lines, columns and
bytes.
-/

namespace CircuitCache.Yaml

/-! ### Characters -/

/-- The white space within a line. -/
def isBlank (c : Char) : Bool := c = ' ' ∨ c = '\t'

/-- The line breaks: the common one, and the separators of lines and paragraphs. -/
def isBreak (c : Char) : Bool := c = '\n' ∨ c = '\u2028' ∨ c = '\u2029'

/-- Whether a text starts with white space or is at its end. -/
def startsBlank : List Char → Bool
  | [] => true
  | c :: _ => isBlank c ∨ isBreak c

/-- The characters that structure collections in brackets. -/
def isFlowIndicator (c : Char) : Bool := c ∈ [',', '[', ']', '\x7b', '\x7d']

/-- The characters of names: of anchors, of handles and of directives. -/
def isWord (c : Char) : Bool := c.isAlphanum ∨ c = '_' ∨ c = '-'

/-- The byte order mark, which shows nothing where a line starts, though it takes a column. -/
def byteOrderMark : Char := '\uFEFF'

/-- Whether a line starts with the mark between documents, or the mark that ends one. -/
def startsMark (cs : List Char) : Bool :=
  (cs.take 3 = ['-', '-', '-'] ∨ cs.take 3 = ['.', '.', '.']) ∧ startsBlank (cs.drop 3)

/-- What the breaks between two lines of text stand for: one is a space, and of several the first
stands for nothing.  Separators of lines and paragraphs stand for themselves. -/
def foldBreaks : List Char → List Char
  | ['\n'] => [' ']
  | '\n' :: more => more
  | breaks => breaks

/-! ### Positions -/

/-- A place in a text: lines and columns count from zero, and `offset` bytes come before it. -/
structure Position where
  line : Nat
  column : Nat
  offset : Nat
  deriving DecidableEq, Repr

/-- The position in front of the first character. -/
def Position.start : Position := ⟨0, 0, 0⟩

/-- The position behind a character. -/
def Position.after (p : Position) (c : Char) : Position :=
  let offset := p.offset + c.utf8Size
  if isBreak c then ⟨p.line + 1, 0, offset⟩ else ⟨p.line, p.column + 1, offset⟩

/-- A position and the text from there on. -/
structure Cursor where
  position : Position
  rest : List Char
  deriving Repr

namespace Cursor

/-- The column in which the rest of the text starts. -/
def column (c : Cursor) : Nat := c.position.column

/-- The cursor behind the next `n` characters. -/
def advance (c : Cursor) (n : Nat) : Cursor :=
  ⟨(c.rest.take n).foldl Position.after c.position, c.rest.drop n⟩

/-- The characters of a kind at a cursor, and the cursor behind them. -/
def span (c : Cursor) (isKind : Char → Bool) : List Char × Cursor :=
  let cs := c.rest.takeWhile isKind
  (cs, c.advance cs.length)

/-- The cursor behind a character that must follow. -/
def expect? (c : Cursor) (d : Char) : Option Cursor :=
  if c.rest.head? = some d then some (c.advance 1) else none

/-- Past blanks and a comment to the end of the line, where nothing else may stand. -/
def skipLine? (c : Cursor) : Option Cursor :=
  let c := (c.span isBlank).2
  let c := if c.rest.head? = some '#' then (c.span (!isBreak ·)).2 else c
  if c.rest.head?.all isBreak then some (c.advance 1) else none

end Cursor

/-! ### Texts -/

/-- Whether a character may stand in a text. -/
def isAllowed (c : Char) : Bool :=
  let n := c.toNat
  n = 0x09 ∨ n = 0x0A ∨ (0x20 ≤ n ∧ n ≤ 0x7E) ∨ (0xA0 ≤ n ∧ n ≤ 0xFFFD) ∨ 0x10000 ≤ n

/-- A text with every common line break written as one character. -/
def unifyBreaks : List Char → List Char
  | '\r' :: '\n' :: rest => '\n' :: unifyBreaks rest
  | '\r' :: rest => '\n' :: unifyBreaks rest
  | '\u0085' :: rest => '\n' :: unifyBreaks rest
  | c :: rest => c :: unifyBreaks rest
  | [] => []

/-- The cursor at the start of a text that has no forbidden characters. -/
def Cursor.ofText? (text : String) : Option Cursor :=
  let cs := unifyBreaks text.toList
  if cs.all isAllowed then some ⟨.start, cs⟩ else none

end CircuitCache.Yaml
