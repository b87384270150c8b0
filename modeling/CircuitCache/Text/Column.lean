/-!
# Columns

Texts filled up with spaces to a width counted in characters, and indented texts.
-/

namespace CircuitCache.Text

/-- A text moved to the right end of a column. -/
def alignRight (width : Nat) (s : String) : String :=
  String.ofList (List.replicate (width - s.length) ' ') ++ s

/-- A text at the left end of a column. -/
def alignLeft (width : Nat) (s : String) : String :=
  s ++ String.ofList (List.replicate (width - s.length) ' ')

/-- A text whose further lines are indented. -/
def hangingIndent (indent : Nat) (s : String) : String :=
  String.ofList (s.toList.flatMap fun c =>
    if c = '\n' then '\n' :: List.replicate indent ' ' else [c])

end CircuitCache.Text
