import CircuitCache.Text.Hidden

/-!
# Quoted texts

A text between double quotes, as diagnostics show it: quotes, backslashes and hidden characters are
escaped.
-/

namespace CircuitCache.Text.Quoted

/-- A character as it is shown between quotes. -/
def escape (c : Char) : List Char :=
  if c = '\x00' then ['\\', '0']
  else if c = '\t' then ['\\', 't']
  else if c = '\n' then ['\\', 'n']
  else if c = '\r' then ['\\', 'r']
  else if c = '"' ∨ c = '\\' then ['\\', c]
  else if isHidden c then ['\\', 'u', '\x7b'] ++ Nat.toDigits 16 c.toNat ++ ['\x7d']
  else [c]

/-- A text between quotes, with escapes for what would not be visible. -/
def quote (s : String) : String := String.ofList ('"' :: s.toList.flatMap escape ++ ['"'])

end CircuitCache.Text.Quoted
