/-!
# Words of the 64-bit binary interchange format

A parameter is kept as its word, so the two zeros and every not-a-number stay apart, and equality of
words is decidable.  Arithmetic on values is exact arithmetic on natural numbers: `Precision.round`
takes a ratio to the nearest value of a format, and `Binary64.ofRatio` writes it as a word.
-/

namespace CircuitCache

/-- A word of the 64-bit binary interchange format. -/
structure Binary64 where
  bits : UInt64
  deriving DecidableEq, Repr, Inhabited

/-! ## Rounding a ratio -/

/-- The width of the significand and the least exponent of a binary format. -/
structure Precision where
  significandBits : Nat
  leastExponent : Int
  greatestExponent : Int

namespace Precision

/-- The 64-bit format. -/
def double : Precision := ⟨53, -1074, 971⟩

/-- The 32-bit format. -/
def single : Precision := ⟨24, -149, 104⟩

/-- The ratio `num / den` divided by the power of two `2 ^ q`, as a ratio. -/
def scaled (num den : Nat) (q : Int) : Nat × Nat :=
  if 0 ≤ q then (num, den * Nat.pow 2 q.toNat) else (num * Nat.pow 2 (-q).toNat, den)

/-- The greatest `k` with `2 ^ k ≤ num / den`, for a positive ratio. -/
def floorLog (num den : Nat) : Int :=
  let k : Int := (num.log2 : Int) - den.log2
  let (n, d) := scaled num den k
  if d ≤ n then k else k - 1

/-- The natural number nearest to a ratio; a half goes to the even neighbour. -/
def nearest (num den : Nat) : Nat :=
  let quotient := num / den
  let rest := num % den
  if 2 * rest < den then quotient
  else if den < 2 * rest then quotient + 1
  else if quotient % 2 = 0 then quotient else quotient + 1

/-- The value `m * 2 ^ q` of the format nearest to a positive ratio, as `(m, q)`. -/
def round (p : Precision) (num den : Nat) : Nat × Int :=
  let q := max p.leastExponent (floorLog num den - (p.significandBits - 1))
  let (n, d) := scaled num den q
  (nearest n d, q)

/-- Whether a rounded value lies beyond the greatest one of the format. -/
def overflows (p : Precision) (m : Nat) (q : Int) : Bool :=
  decide (p.greatestExponent < q ∨ q = p.greatestExponent ∧ Nat.pow 2 p.significandBits ≤ m)

end Precision

namespace Binary64

/-! ## The parts of a word -/

/-- The word whose only bit is the sign. -/
def signBit : Nat := 0x8000000000000000

/-- The least magnitude with a leading bit that the word does not hold. -/
def hiddenBit : Nat := 0x10000000000000

/-- The magnitude of infinity; the words of not-a-number lie above it. -/
def infiniteMagnitude : Nat := 0x7FF0000000000000

/-- The magnitude of the quiet not-a-number. -/
def quietMagnitude : Nat := 0x7FF8000000000000

/-- The word without its sign bit. -/
def magnitude (x : Binary64) : Nat := x.bits.toNat % signBit

/-- Whether the sign bit is set. -/
def isNegative (x : Binary64) : Bool := decide (signBit ≤ x.bits.toNat)

/-- Whether the word is a number, and neither infinite nor a not-a-number. -/
def isFinite (x : Binary64) : Bool := decide (x.magnitude < infiniteMagnitude)

/-- Whether the word is one of the many not-a-numbers. -/
def isNaN (x : Binary64) : Bool := decide (infiniteMagnitude < x.magnitude)

/-- Whether the word is one of the two zeros. -/
def isZero (x : Binary64) : Bool := decide (x.magnitude = 0)

/-- The word with a sign and a magnitude. -/
def ofMagnitude (negative : Bool) (magnitude : Nat) : Binary64 :=
  ⟨UInt64.ofNat (if negative then signBit + magnitude else magnitude)⟩

/-- The natural number `m` in the value `m * 2 ^ q` of a finite word. -/
def significand (x : Binary64) : Nat :=
  if x.magnitude < hiddenBit then x.magnitude else hiddenBit + x.magnitude % hiddenBit

/-- The exponent `q` in the value `m * 2 ^ q` of a finite word. -/
def exponent (x : Binary64) : Int := (max (x.magnitude / hiddenBit) 1 : Nat) - 1075

/-- The magnitude of a finite word as a ratio. -/
def ratio (x : Binary64) : Nat × Nat :=
  if 0 ≤ x.exponent then (x.significand * Nat.pow 2 x.exponent.toNat, 1)
  else (x.significand, Nat.pow 2 (-x.exponent).toNat)

/-- The zero without a sign. -/
def zero : Binary64 := ofMagnitude false 0

/-- The infinite word with a sign. -/
def infinity (negative : Bool) : Binary64 := ofMagnitude negative infiniteMagnitude

/-- The quiet not-a-number. -/
def nan (negative : Bool) : Binary64 := ofMagnitude negative quietMagnitude

/-- Equality of values: the two zeros are equal, and no not-a-number equals anything. -/
def same (x y : Binary64) : Bool :=
  !x.isNaN && !y.isNaN && (x == y || (x.isZero && y.isZero))

/-! ## Words of numbers -/

/-- The word nearest to a ratio with a sign; what lies beyond the greatest value is infinite. -/
def ofRatio (negative : Bool) (num den : Nat) : Binary64 :=
  if num = 0 then ofMagnitude negative 0
  else
    let (m, q) := Precision.double.round num den
    ofMagnitude negative (min ((q + 1074).toNat * hiddenBit + m) infiniteMagnitude)

/-- The word of a ratio that is first rounded to the 32-bit format. -/
def ofSingleRatio (negative : Bool) (num den : Nat) : Binary64 :=
  if num = 0 then ofMagnitude negative 0
  else
    let (m, q) := Precision.single.round num den
    if Precision.single.overflows m q then infinity negative
    else if 0 ≤ q then ofRatio negative (m * Nat.pow 2 q.toNat) 1
    else ofRatio negative m (Nat.pow 2 (-q).toNat)

/-- The word nearest to a natural number. -/
def ofNat (n : Nat) : Binary64 := ofRatio false n 1

/-- The word nearest to an integer. -/
def ofInt (n : Int) : Binary64 := ofRatio (decide (n < 0)) n.natAbs 1

/-! ## Products and quotients -/

/-- The word nearest to the product of two finite words. -/
def times (x y : Binary64) : Binary64 :=
  ofRatio (x.isNegative ^^ y.isNegative) (x.ratio.1 * y.ratio.1) (x.ratio.2 * y.ratio.2)

/-- The word nearest to the quotient of two finite words, the second one not zero. -/
def dividedBy (x y : Binary64) : Binary64 :=
  ofRatio (x.isNegative ^^ y.isNegative) (x.ratio.1 * y.ratio.2) (x.ratio.2 * y.ratio.1)

end Binary64

end CircuitCache
