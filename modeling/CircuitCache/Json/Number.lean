import CircuitCache.Json

/-!
# The words that numerals denote

A numeral is read in two roundings.  Its leading digits, as many as fit 64 bits, are rounded to a
word, and that word is multiplied or divided by the word of a power of ten.  The result may be a
neighbour of the word nearest to the numeral.
-/

namespace CircuitCache

namespace Binary64

/-- The greatest power of ten that a word can be near to is `10 ^ greatestTen`. -/
def greatestTen : Nat := 308

/-- The word nearest to a power of ten. -/
def tenTo (k : Nat) : Binary64 := ofNat (Nat.pow 10 k)

/-- A word divided by the greatest power of ten so many times, or until nothing is left of it. -/
def sink (x : Binary64) : (steps : Nat) → Binary64
  | 0 => x
  | steps + 1 => if x.isZero then x else (x.dividedBy (tenTo greatestTen)).sink steps

/-- A word times a power of ten, none if that is too large.  A negative exponent beyond the greatest
power is taken off in steps of that power. -/
def timesTenTo? (x : Binary64) (e : Int) : Option Binary64 :=
  if 0 ≤ e then
    if e ≤ greatestTen then some (x.times (tenTo e.toNat)) |>.filter isFinite
    else if x.isZero then some x else none
  else
    let steps := ((-e).toNat - 1) / greatestTen
    some ((x.sink steps).dividedBy (tenTo ((-e).toNat - greatestTen * steps)))

end Binary64

namespace Json.Numeral

/-- A significand with digits put after it as long as it stays below `2 ^ 64`, and the digits from
the first that does not fit on. -/
def extend (s : Nat) : List Char → Nat × List Char
  | [] => (s, [])
  | c :: cs =>
    let longer := 10 * s + (c.toNat - '0'.toNat)
    if longer < UInt64.size then extend longer cs else (s, c :: cs)

/-- The significand and its exponent of ten.  Digits that do not fit are left out; before the point
each of them raises the exponent. -/
def parts (n : Numeral) : Nat × Int :=
  let (whole, uncounted) := extend 0 n.whole
  let (significand, rest) := extend whole n.fraction
  (significand, n.tens + uncounted.length - (n.fraction.length - rest.length))

/-- The word that a numeral is read as, none if it is too large. -/
def word? (n : Numeral) : Option Binary64 :=
  ((Binary64.ofNat n.parts.1).timesTenTo? n.parts.2).map fun x =>
    Binary64.ofMagnitude n.negative x.magnitude

end Json.Numeral

end CircuitCache
