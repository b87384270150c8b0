import CircuitCache.Binary64

/-!
# Decimal numerals

A decimal numeral has a sign, a natural number of digits and an exponent of ten.  `Decimal.toWord`
rounds it to a word; `Binary64.ofText?` reads numerals and the names of the values that have none.
-/

namespace CircuitCache

/-- The number `± digits * 10 ^ exponent`. -/
structure Decimal where
  negative : Bool
  digits : Nat
  exponent : Int
  deriving DecidableEq, Repr

namespace Decimal

/-- How far below the last digit an exponent still matters: beyond it all values round to zero. -/
def depth (digits : Nat) : Int := 400 + (Nat.toDigits 10 digits).length

/-- The magnitude as a ratio.  Exponents so large that every value is infinite, or so small that
every value is zero, are cut to the limit, which changes no rounded value. -/
def ratio (d : Decimal) : Nat × Nat :=
  let e := max (-depth d.digits) (min d.exponent 400)
  if 0 ≤ e then (d.digits * Nat.pow 10 e.toNat, 1) else (d.digits, Nat.pow 10 (-e).toNat)

/-- The word nearest to a decimal number. -/
def toWord (d : Decimal) : Binary64 :=
  let (num, den) := d.ratio
  Binary64.ofRatio d.negative num den

/-- The word nearest to the value of the 32-bit format nearest to a decimal number. -/
def toSingleWord (d : Decimal) : Binary64 :=
  let (num, den) := d.ratio
  Binary64.ofSingleRatio d.negative num den

/-! ## Reading -/

/-- The decimal digits at the front, and what follows them. -/
def splitDigits (cs : List Char) : List Char × List Char := cs.span Char.isDigit

/-- An optional sign at the front, true for a minus, and what follows it. -/
def splitSign : List Char → Bool × List Char
  | '-' :: rest => (true, rest)
  | '+' :: rest => (false, rest)
  | cs => (false, cs)

/-- The integer of digits with an optional sign, which must be all there is. -/
def exponentOf? (cs : List Char) : Option Int :=
  let (negative, rest) := splitSign cs
  match splitDigits rest with
  | ([], _) => none
  | (ds, []) =>
    let n : Int := Nat.ofDigitChars 10 ds 0
    some (if negative then -n else n)
  | _ => none

/-- The value of whole digits, fraction digits and an exponent. -/
def ofParts (negative : Bool) (whole fraction : List Char) (exponent : Int) : Decimal :=
  ⟨negative, Nat.ofDigitChars 10 (whole ++ fraction) 0, exponent - fraction.length⟩

/-- Reads digits with an optional point and an optional exponent; at least one digit must stand
beside the point. -/
def ofUnsigned? (negative : Bool) (cs : List Char) : Option Decimal :=
  let (whole, rest) := splitDigits cs
  let (fraction, rest) := match rest with
    | '.' :: rest => splitDigits rest
    | _ => ([], rest)
  if whole ++ fraction = [] then none
  else match rest with
    | [] => some (ofParts negative whole fraction 0)
    | e :: rest =>
      if e = 'e' ∨ e = 'E' then (exponentOf? rest).map (ofParts negative whole fraction) else none

end Decimal

namespace Binary64

/-- What a numeral may denote: a decimal number, or a value without digits. -/
inductive Literal where
  | number (d : Decimal)
  | infinity (negative : Bool)
  | nan (negative : Bool)
  deriving DecidableEq, Repr

/-- Reads a numeral with an optional sign, or `nan`, `inf` or `infinity` in any case of letters. -/
def Literal.ofText? (s : String) : Option Literal :=
  let (negative, rest) := Decimal.splitSign s.toList
  let word := rest.map Char.toLower
  if word = "nan".toList then some (nan negative)
  else if word = "inf".toList ∨ word = "infinity".toList then some (infinity negative)
  else (Decimal.ofUnsigned? negative rest).map number

/-- The word nearest to what a numeral denotes. -/
def Literal.toWord : Literal → Binary64
  | number d => d.toWord
  | infinity negative => Binary64.infinity negative
  | nan negative => Binary64.nan negative

/-- The word of what a numeral denotes once it is rounded to the 32-bit format. -/
def Literal.toSingleWord : Literal → Binary64
  | number d => d.toSingleWord
  | infinity negative => Binary64.infinity negative
  | nan negative => Binary64.nan negative

/-- The word that a text denotes. -/
def ofText? (s : String) : Option Binary64 := (Literal.ofText? s).map Literal.toWord

/-- The word that a text denotes once read in the 32-bit format. -/
def ofSingleText? (s : String) : Option Binary64 := (Literal.ofText? s).map Literal.toSingleWord

end Binary64

end CircuitCache
