/-!
# Edit distance and the nearest name

`editDistance` is the recursive definition: the fewest insertions, deletions and substitutions
that turn one text into another.  `rowDistance` computes it with two rows that take turns.
`nearest?` picks the candidate to offer for a misspelt name.
-/

namespace CircuitCache.Text

/-- The fewest insertions, deletions and substitutions that turn one text into the other. -/
def editDistance : List Char → List Char → Nat
  | [], right => right.length
  | left, [] => left.length
  | a :: left, b :: right =>
    min (editDistance left right + if a = b then 0 else 1)
      (min (editDistance left (b :: right) + 1) (editDistance (a :: left) right + 1))
termination_by left right => left.length + right.length

theorem editDistance_nil_left (right : List Char) : editDistance [] right = right.length := by
  rw [editDistance]

theorem editDistance_nil_right (left : List Char) : editDistance left [] = left.length := by
  cases left with
  | nil => rw [editDistance]
  | cons a left => rw [editDistance, List.length_cons]; simp

theorem editDistance_cons_cons (a b : Char) (left right : List Char) :
    editDistance (a :: left) (b :: right) =
      min (editDistance left right + if a = b then 0 else 1)
        (min (editDistance left (b :: right) + 1) (editDistance (a :: left) right + 1)) := by
  rw [editDistance]

/-! ### Two rows -/

/-- A row of distances, with an entry for each beginning of the right text, the empty one first. -/
abbrev Row (right : List Char) : Type := Vector Nat (right.length + 1)

/-- The finished row of the left text so far, and a row to overwrite, which holds older entries. -/
structure Rows (right : List Char) where
  previous : Row right
  current : Row right

namespace Rows

variable {right : List Char}

/-- The rows before the first character of the left text: only insertions lead from nothing. -/
def start (right : List Char) : Rows right :=
  ⟨Vector.range (right.length + 1), Vector.replicate (right.length + 1) 0⟩

/-- The current row when its entries up to `j` are those of the next character of the left text,
the one at position `i`.  The entries on their right are still the old ones. -/
def overwrite (rows : Rows right) (c : Char) (i : Nat) : (j : Nat) → j ≤ right.length → Row right
  | 0, _ => rows.current.set 0 (i + 1)
  | j + 1, hj =>
    let current := rows.overwrite c i j (Nat.le_of_succ_le hj)
    let substitution := rows.previous[j] + if c = right[j] then 0 else 1
    current.set (j + 1) (min (min substitution (rows.previous[j + 1] + 1)) (current[j] + 1))

/-- One more character of the left text, with its position: the overwritten row is the finished one
now, and the row before it is the next to be overwritten. -/
def advance (rows : Rows right) (next : Char × Nat) : Rows right :=
  ⟨rows.overwrite next.1 next.2 right.length (Nat.le_refl _), rows.previous⟩

end Rows

/-- The edit distance as the last entry of the last row. -/
def rowDistance (left right : List Char) : Nat :=
  (left.zipIdx.foldl Rows.advance (Rows.start right)).previous[right.length]

/-! ### The nearest name -/

/-- A text as names are compared: without regard to the case of ASCII letters. -/
def folded (s : String) : List Char := s.toList.map Char.toLower

/-- How far a candidate may be from a misspelt name: short names allow one slip, others two. -/
def slips (target : String) : Nat := if target.length < 3 then 1 else 2

/-- The first of the candidates at least distance, with that distance. -/
def closest (target : List Char) : List String → Option (String × Nat)
  | [] => none
  | candidate :: rest =>
    let d := rowDistance target (folded candidate)
    match closest target rest with
    | none => some (candidate, d)
    | some (other, e) => if d ≤ e then some (candidate, d) else some (other, e)

/-- The first of the nearest candidates, if it is near enough to be a plausible slip. -/
def nearest? (target : String) (candidates : List String) : Option String :=
  match closest (folded target) candidates with
  | none => none
  | some (candidate, d) => if d ≤ slips target then some candidate else none

end CircuitCache.Text
