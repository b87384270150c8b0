/-!
# Numbers of 64 bits in texts

A natural number below `2 ^ 64` in decimal digits, with a plus if wanted.
-/

namespace CircuitCache.Text

/-- Why a text is no such number. -/
inductive NaturalError where
  | empty
  | invalidDigit
  | tooLarge
  deriving DecidableEq, Repr

/-- What is said about a text that is no natural number. -/
def NaturalError.message : NaturalError → String
  | empty => "cannot parse integer from empty string"
  | invalidDigit => "invalid digit found in string"
  | tooLarge => "number too large to fit in target type"

/-- The number of digits, the first of which make `acc`; the first fault from the left counts. -/
def readDigits (acc : Nat) : List Char → Except NaturalError Nat
  | [] => .ok acc
  | c :: rest =>
    if !c.isDigit then .error .invalidDigit
    else
      let acc := 10 * acc + (c.toNat - '0'.toNat)
      if UInt64.size ≤ acc then .error .tooLarge else readDigits acc rest

/-- The number that a text is. -/
def readNatural : List Char → Except NaturalError Nat
  | [] => .error .empty
  | ['+'] => .error .invalidDigit
  | '+' :: rest => readDigits 0 rest
  | cs => readDigits 0 cs

end CircuitCache.Text
