/-!
# White space

The characters with the Unicode property White_Space, and texts without them at their ends.
-/

namespace CircuitCache.Text

/-- The ranges of the property White_Space, first and last code point. -/
def blankRanges : List (Nat × Nat) :=
  [(0x09, 0x0D), (0x20, 0x20), (0x85, 0x85), (0xA0, 0xA0), (0x1680, 0x1680), (0x2000, 0x200A),
    (0x2028, 0x2029), (0x202F, 0x202F), (0x205F, 0x205F), (0x3000, 0x3000)]

/-- Whether a character is white space. -/
def isBlank (c : Char) : Bool :=
  blankRanges.any fun (first, last) => first ≤ c.toNat ∧ c.toNat ≤ last

example : (blankRanges.map fun (first, last) => last - first + 1).sum = 25 := rfl

/-- Past white space at the front. -/
def skipBlank (cs : List Char) : List Char := cs.dropWhile isBlank

/-- The characters between the white space at both ends. -/
def trim (cs : List Char) : List Char := (skipBlank (skipBlank cs).reverse).reverse

end CircuitCache.Text
