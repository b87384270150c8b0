import CircuitCache.Binary64.Decimal
import CircuitCache.Instant
import CircuitCache.Text.Blank

/-!
# Reading instants

RFC 3339 with some freedom: white space may stand before each number and each mark, numbers may be
short, and the offset may be written without a colon or as `UTC`.
-/

namespace CircuitCache.Instant

open Text (skipBlank)

/-- A number of one to `width` digits, after white space. -/
def readNumber (width : Nat) (cs : List Char) : Option (Nat × List Char) :=
  let cs := skipBlank cs
  let ds := (cs.take width).takeWhile Char.isDigit
  if ds = [] then none else some (Nat.ofDigitChars 10 ds 0, cs.drop ds.length)

/-- A mark, after white space. -/
def readMark (mark : Char) (cs : List Char) : Option (List Char) :=
  match skipBlank cs with
  | c :: rest => if c = mark then some rest else none
  | [] => none

/-- A number of any length with no white space before it. -/
def readLong (cs : List Char) : Option (Nat × List Char) :=
  match Decimal.splitDigits cs with
  | ([], _) => none
  | (ds, rest) => some (Nat.ofDigitChars 10 ds 0, rest)

/-- A year of up to four digits, or of any length after a sign. -/
def readYear (cs : List Char) : Option (Int × List Char) :=
  match skipBlank cs with
  | '-' :: rest => (readLong rest).map fun (n, rest) => (-(n : Int), rest)
  | '+' :: rest => (readLong rest).map fun (n, rest) => ((n : Int), rest)
  | cs => (readNumber 4 cs).map fun (n, rest) => ((n : Int), rest)

/-- The years that a date may have. -/
def yearInRange (year : Int) : Bool := -262143 ≤ year ∧ year ≤ 262142

/-- A date at the front as `YYYY-MM-DD`, which must be one of the calendar. -/
def readDate (cs : List Char) : Option (Date × List Char) := do
  let (year, cs) ← readYear cs
  let cs ← readMark '-' cs
  let (month, cs) ← readNumber 2 cs
  let cs ← readMark '-' cs
  let (day, cs) ← readNumber 2 cs
  let date : Date := ⟨year, month, day⟩
  if yearInRange year ∧ date.isValid then some (date, cs) else none

/-- The nanoseconds of a fraction, digits past the ninth left out. -/
def readFraction : List Char → Option (Nat × List Char)
  | '.' :: cs =>
    match Decimal.splitDigits cs with
    | ([], _) => none
    | (ds, rest) =>
      let ds := ds.take 9
      some (Nat.ofDigitChars 10 ds 0 * Nat.pow 10 (9 - ds.length), rest)
  | cs => some (0, cs)

/-- Two digits at the front, as a number. -/
def readPair : List Char → Option (Nat × List Char)
  | a :: b :: rest =>
    if a.isDigit ∧ b.isDigit then some (Nat.ofDigitChars 10 [a, b] 0, rest) else none
  | _ => none

/-- The minutes of an offset by hours and minutes, with any colons and white space between. -/
def readHourOffset (cs : List Char) : Option (Nat × List Char) := do
  let (hours, cs) ← readPair cs
  let (minutes, cs) ← readPair (cs.dropWhile fun c => c = ':' ∨ Text.isBlank c)
  if minutes < 60 ∧ hours < 24 then some (hours * 60 + minutes, cs) else none

/-- The minutes that an offset is ahead of UTC. -/
def readOffset (cs : List Char) : Option (Int × List Char) :=
  if (cs.take 3).map Char.toUpper = "UTC".toList then some (0, cs.drop 3)
  else
    match cs with
    | c :: rest =>
      if c = 'Z' ∨ c = 'z' then some (0, rest)
      else if c = '+' then (readHourOffset rest).map fun (m, rest) => ((m : Int), rest)
      else if c = '-' ∨ c = '\u2212' then
        (readHourOffset rest).map fun (m, rest) => (-(m : Int), rest)
      else none
    | [] => none

/-- Past the mark between the date and the time of day. -/
def readSeparator : List Char → Option (List Char)
  | c :: rest => if c = 'T' ∨ c = 't' ∨ c = ' ' then some rest else none
  | [] => none

/-- The instant that a text denotes, brought to UTC. -/
def ofText? (s : String) : Option Instant := do
  let (date, cs) ← readDate s.toList
  let cs ← readSeparator cs
  let (hour, cs) ← readNumber 2 cs
  let cs ← readMark ':' cs
  let (minute, cs) ← readNumber 2 cs
  let cs ← readMark ':' cs
  let (second, cs) ← readNumber 2 cs
  let (nanosecond, cs) ← readFraction cs
  let (offset, cs) ← readOffset (skipBlank cs)
  if hour < 24 ∧ minute < 60 ∧ second ≤ 60 ∧ skipBlank cs = [] then
    some (ofLocal date hour minute second nanosecond offset)
  else none

end CircuitCache.Instant
