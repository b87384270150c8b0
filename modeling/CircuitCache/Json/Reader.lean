import CircuitCache.Json

/-!
# Reading JSON

Readers take a value off the front and return the rest.  The fuel of `readValue` bounds the
nesting; `read` gives as much as any text of its length can need.
-/

namespace CircuitCache.Json

/-- The white space between the tokens of a text. -/
def isBlank (c : Char) : Bool := c = ' ' ∨ c = '\n' ∨ c = '\t' ∨ c = '\r'

/-- Past white space at the front. -/
def skipBlank (cs : List Char) : List Char := cs.dropWhile isBlank

/-! ### Numerals -/

/-- Digits of a whole number, with no zero before other digits. -/
def readWhole (cs : List Char) : Option (List Char × List Char) :=
  match Decimal.splitDigits cs with
  | ([], _) => none
  | (['0'], rest) => some (['0'], rest)
  | ('0' :: _, _) => none
  | (ds, rest) => some (ds, rest)

/-- A point with digits after it, if there is a point. -/
def readFraction : List Char → Option (List Char × List Char)
  | '.' :: cs =>
    match Decimal.splitDigits cs with
    | ([], _) => none
    | (ds, rest) => some (ds, rest)
  | cs => some ([], cs)

/-- An exponent, if there is one. -/
def readExponent : List Char → Option (Option (Bool × List Char) × List Char)
  | [] => some (none, [])
  | e :: cs =>
    if e = 'e' ∨ e = 'E' then
      let (negative, cs) := Decimal.splitSign cs
      match Decimal.splitDigits cs with
      | ([], _) => none
      | (ds, rest) => some (some (negative, ds), rest)
    else some (none, e :: cs)

/-- A numeral at the front, and what follows it. -/
def readNumeral (cs : List Char) : Option (Numeral × List Char) := do
  let (negative, cs) := match cs with
    | '-' :: cs => (true, cs)
    | cs => (false, cs)
  let (whole, cs) ← readWhole cs
  let (fraction, cs) ← readFraction cs
  let (exponent, cs) ← readExponent cs
  return (⟨negative, whole, fraction, exponent⟩, cs)

/-! ### Strings -/

/-- What stands before the closing quote, and what follows it.  Escapes must be well formed;
what they denote is left to `unescape`. -/
def readString : List Char → Option (List Char × List Char)
  | [] => none
  | '"' :: rest => some ([], rest)
  | '\\' :: 'u' :: p :: q :: r :: s :: rest =>
    if (hex4? p q r s).isSome then
      (readString rest).map fun (cs, rest) => ('\\' :: 'u' :: p :: q :: r :: s :: cs, rest)
    else none
  | '\\' :: e :: rest =>
    if (escapes.lookup e).isSome then
      (readString rest).map fun (cs, rest) => ('\\' :: e :: cs, rest)
    else none
  | c :: rest =>
    if c < ' ' then none else (readString rest).map fun (cs, rest) => (c :: cs, rest)

/-! ### Values -/

namespace Value

mutual

/-- A value at the front, after white space. -/
def readValue : (fuel : Nat) → List Char → Option (Value × List Char)
  | 0, _ => none
  | fuel + 1, cs =>
    match skipBlank cs with
    | 'n' :: 'u' :: 'l' :: 'l' :: rest => some (null, rest)
    | 't' :: 'r' :: 'u' :: 'e' :: rest => some (bool true, rest)
    | 'f' :: 'a' :: 'l' :: 's' :: 'e' :: rest => some (bool false, rest)
    | '"' :: rest => (readString rest).map fun (s, rest) => (string s, rest)
    | '[' :: rest =>
      match skipBlank rest with
      | ']' :: rest => some (array [], rest)
      | rest => (readItems fuel rest).map fun (vs, rest) => (array vs, rest)
    | '{' :: rest =>
      match skipBlank rest with
      | '}' :: rest => some (object [], rest)
      | rest => (readMembers fuel rest).map fun (ms, rest) => (object ms, rest)
    | rest => (readNumeral rest).map fun (n, rest) => (number n, rest)

/-- Items up to the closing bracket. -/
def readItems : (fuel : Nat) → List Char → Option (List Value × List Char)
  | 0, _ => none
  | fuel + 1, cs => do
    let (v, rest) ← readValue fuel cs
    match skipBlank rest with
    | ',' :: rest => (readItems fuel rest).map fun (vs, rest) => (v :: vs, rest)
    | ']' :: rest => some ([v], rest)
    | _ => none

/-- Members up to the closing brace. -/
def readMembers : (fuel : Nat) → List Char → Option (List (List Char × Value) × List Char)
  | 0, _ => none
  | fuel + 1, cs =>
    match skipBlank cs with
    | '"' :: rest => do
      let (name, rest) ← readString rest
      match skipBlank rest with
      | ':' :: rest => do
        let (v, rest) ← readValue fuel rest
        match skipBlank rest with
        | ',' :: rest => (readMembers fuel rest).map fun (ms, rest) => ((name, v) :: ms, rest)
        | '}' :: rest => some ([(name, v)], rest)
        | _ => none
      | _ => none
    | _ => none

end

/-- The value that a text is, with white space around it. -/
def read (cs : List Char) : Option Value := do
  let (v, rest) ← readValue (2 * cs.length + 2) cs
  if skipBlank rest = [] then some v else none

end Value

end CircuitCache.Json
