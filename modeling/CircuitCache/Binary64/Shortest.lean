import CircuitCache.Binary64.Decimal

/-!
# The fewest digits of a word

`Binary64.shortest` writes a finite word with the fewest decimal digits that are rounded to this
word.  Each digit count is tried by rounding the candidates themselves; should none give the word,
the exact expansion stands, which always does.
-/

namespace CircuitCache.Binary64

/-- Whether `num / den < 10 ^ k`. -/
def belowTenTo (num den : Nat) (k : Int) : Bool :=
  if 0 ≤ k then decide (num < den * Nat.pow 10 k.toNat)
  else decide (num * Nat.pow 10 (-k).toNat < den)

/-- The least `k` with `num / den < 10 ^ k`, for a positive ratio within the range of words. -/
def decimalPoint (num den : Nat) : Int :=
  let guess := (Precision.floorLog num den * 1233).fdiv 4096
  if belowTenTo num den guess then guess
  else if belowTenTo num den (guess + 1) then guess + 1
  else guess + 2

/-- The ratio `num / den` in units of `10 ^ k`, as a ratio. -/
def inUnits (num den : Nat) (k : Int) : Nat × Nat :=
  if 0 ≤ k then (num, den * Nat.pow 10 k.toNat) else (num * Nat.pow 10 (-k).toNat, den)

/-- The number of digits that stand for a word on the grid of `10 ^ k`: of the two neighbours of
its value the one that is rounded to the word; if both are, the nearer, and halfway the even one. -/
def onGrid? (x : Binary64) (k : Int) : Option Decimal :=
  let (n, d) := inUnits x.ratio.1 x.ratio.2 k
  let below : Decimal := ⟨x.isNegative, n / d, k⟩
  let above : Decimal := ⟨x.isNegative, n / d + 1, k⟩
  let rest := n % d
  match decide (below.toWord = x), decide (above.toWord = x) with
  | true, true =>
    if 2 * rest < d then some below
    else if d < 2 * rest then some above
    else if n / d % 2 = 0 then some below else some above
  | true, false => some below
  | false, true => some above
  | false, false => none

/-- The first grid with a candidate, from `count` digits on, over `steps` further counts. -/
def firstGrid? (x : Binary64) (point : Int) : (steps count : Nat) → Option Decimal
  | 0, _ => none
  | steps + 1, count =>
    match onGrid? x (point - count) with
    | some d => some d
    | none => firstGrid? x point steps (count + 1)

/-- All digits of a finite word. -/
def expansion (x : Binary64) : Decimal :=
  if 0 ≤ x.exponent then ⟨x.isNegative, x.significand * Nat.pow 2 x.exponent.toNat, 0⟩
  else ⟨x.isNegative, x.significand * Nat.pow 5 (-x.exponent).toNat, x.exponent⟩

/-- The fewest decimal digits that are rounded to a finite word. -/
def shortest (x : Binary64) : Decimal :=
  if x.isZero then ⟨x.isNegative, 0, 0⟩
  else (firstGrid? x (decimalPoint x.ratio.1 x.ratio.2) 17 1).getD x.expansion

end CircuitCache.Binary64
