import CircuitCache.Text.Hex
import CircuitCache.Yaml.Cursor

/-!
# Plain and quoted scalars

The line breaks in a scalar that is written over several lines are folded.
-/

namespace CircuitCache.Yaml

/-! ### White space within a scalar -/

/-- White space that is folded once text follows: blanks, line breaks with blanks around them, or
the line breaks after an escaped one, which stands for nothing. -/
inductive Gap where
  | blanks (cs : List Char)
  | breaks (cs : List Char)
  | escaped (cs : List Char)
  deriving DecidableEq, Repr

namespace Gap

/-- The gap between two characters that touch. -/
def none : Gap := .blanks []

/-- What the white space stands for once text follows. -/
def text : Gap → List Char
  | blanks cs => cs
  | breaks cs => foldBreaks cs
  | escaped cs => cs

/-- The gap with a blank or a line break after it.  Blanks at the end or start of a line are
dropped. -/
def add (c : Char) : Gap → Gap
  | blanks cs => if isBreak c then breaks [c] else blanks (cs ++ [c])
  | breaks cs => if isBreak c then breaks (cs ++ [c]) else breaks cs
  | escaped cs => if isBreak c then escaped (cs ++ [c]) else escaped cs

/-- Whether a line ends in the gap. -/
def isBroken : Gap → Bool
  | blanks _ => false
  | _ => true

end Gap

/-! ### Plain scalars -/

/-- Whether a plain scalar may start here: not with an indicator, unless text follows a dash, or
outside brackets a question mark or colon. -/
def startsPlain (inFlow : Bool) : List Char → Bool
  | [] => false
  | c :: rest =>
    if c = '-' then !startsBlank rest
    else if c = '?' ∨ c = ':' then !inFlow && !startsBlank rest
    else !(startsBlank [c] || isFlowIndicator c
      || c ∈ ['#', '&', '*', '!', '|', '>', '\'', '"', '%', '@', '\x60'])

/-- Whether a plain scalar ends before a text that is no white space: at a mark, at a comment, at a
line too far left, or at the colon after a key; between brackets also at an indicator. -/
def endsPlain (inFlow : Bool) (least : Nat) (gap : Gap) (p : Position) : List Char → Bool
  | [] => true
  | c :: rest =>
    (gap.isBroken && ((!inFlow && p.column < least) || (p.column = 0 && startsMark (c :: rest))))
      || (c = '#' && gap ≠ .none)
      || (c = ':' && startsBlank rest)
      || (inFlow && isFlowIndicator c)

/-- A plain scalar: its text, the white space after it, and the cursor behind that.  Outside
brackets its lines start in column `least` or further right, and no tab may stand left of it.
Between brackets a colon must not touch an indicator. -/
def plain (inFlow : Bool) (least : Nat) (gap : Gap) (p : Position) :
    List Char → Option (List Char × Gap × Cursor)
  | [] => some ([], gap, ⟨p, []⟩)
  | c :: rest =>
    if isBreak c then plain inFlow least (gap.add c) (p.after c) rest
    else if isBlank c then
      if c = '\t' ∧ gap.isBroken ∧ p.column < least then none
      else plain inFlow least (gap.add c) (p.after c) rest
    else if endsPlain inFlow least gap p (c :: rest) then some ([], gap, ⟨p, c :: rest⟩)
    else if inFlow ∧ c = ':' ∧ (rest.head?.any fun d => d = '?' ∨ isFlowIndicator d) then none
    else
      (plain inFlow least .none (p.after c) rest).map fun (cs, found) =>
        (gap.text ++ c :: cs, found)

/-! ### Quoted scalars -/

/-- The text before a closing single quote, and the cursor behind it.  Two quotes stand for one. -/
def singleQuoted (gap : Gap) (p : Position) : List Char → Option (List Char × Cursor)
  | [] => none
  | '\'' :: '\'' :: rest =>
    (singleQuoted .none ((p.after '\'').after '\'') rest).map fun (cs, c) =>
      (gap.text ++ '\'' :: cs, c)
  | '\'' :: rest => some (gap.text, ⟨p.after '\'', rest⟩)
  | c :: rest =>
    if isBreak c ∧ startsMark rest then none
    else if isBreak c ∨ isBlank c then singleQuoted (gap.add c) (p.after c) rest
    else
      (singleQuoted .none (p.after c) rest).map fun (cs, found) => (gap.text ++ c :: cs, found)

/-- The characters that letters after a backslash stand for. -/
def escapes : List (Char × Char) :=
  [('0', '\x00'), ('a', '\x07'), ('b', '\x08'), ('t', '\t'), ('\t', '\t'), ('n', '\n'),
    ('v', '\x0b'), ('f', '\x0c'), ('r', '\r'), ('e', '\x1b'), (' ', ' '), ('"', '"'), ('/', '/'),
    ('\\', '\\'), ('N', '\u0085'), ('_', '\u00a0'), ('L', '\u2028'), ('P', '\u2029')]

/-- How many hexadecimal digits follow a letter after a backslash. -/
def hexWidth? (c : Char) : Option Nat :=
  if c = 'x' then some 2 else if c = 'u' then some 4 else if c = 'U' then some 8 else none

/-- The character with a code point that digits denote. -/
def hexChar? (digits : List Char) : Option Char := do
  let n ← Text.hexValue? 0 digits
  if n.isValidChar then some (Char.ofNat n) else none

/-- What a letter after a backslash stands for, and how many of the characters after the letter
belong to it. -/
def escape? (letter : Char) (rest : List Char) : Option (Char × Nat) :=
  match hexWidth? letter with
  | some width =>
    if rest.length < width then none else (hexChar? (rest.take width)).map fun c => (c, width)
  | none => (escapes.lookup letter).map fun c => (c, 0)

/-- The text before a closing double quote, and the cursor behind it.  The first `idle` characters
belong to an escape and have been read already. -/
def doubleQuoted : (idle : Nat) → Gap → Position → List Char → Option (List Char × Cursor)
  | _, _, _, [] => none
  | idle + 1, gap, p, c :: rest => doubleQuoted idle gap (p.after c) rest
  | 0, gap, p, '"' :: rest => some (gap.text, ⟨p.after '"', rest⟩)
  | 0, gap, p, '\\' :: letter :: rest =>
    let p := (p.after '\\').after letter
    if isBreak letter then
      if startsMark rest then none
      else (doubleQuoted 0 (.escaped []) p rest).map fun (cs, found) => (gap.text ++ cs, found)
    else
      match escape? letter rest with
      | none => none
      | some (c, idle) =>
        (doubleQuoted idle .none p rest).map fun (cs, found) => (gap.text ++ c :: cs, found)
  | 0, gap, p, c :: rest =>
    if isBreak c ∧ startsMark rest then none
    else if isBreak c ∨ isBlank c then doubleQuoted 0 (gap.add c) (p.after c) rest
    else
      (doubleQuoted 0 .none (p.after c) rest).map fun (cs, found) => (gap.text ++ c :: cs, found)

/-- The text of a quoted scalar at its opening quote, and the cursor behind it. -/
def quoted? (c : Cursor) : Option (List Char × Cursor) :=
  match c.rest with
  | '\'' :: rest => singleQuoted .none (c.position.after '\'') rest
  | '"' :: rest => doubleQuoted 0 .none (c.position.after '"') rest
  | _ => none

end CircuitCache.Yaml
