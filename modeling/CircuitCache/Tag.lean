import CircuitCache.CircuitError
import CircuitCache.Text.EditDistance

/-!
# Operation kinds

The closed set of kinds that source operations and compiled instructions share, with their names.
-/

namespace CircuitCache

/-- The kind of an operation or instruction. -/
inductive Tag where
  | id | x | y | z | h | s | sdg | t | tdg
  | rx | ry | rz | u1 | u2 | u3
  | cx | cy | cz | ch | crz | cu1 | cu3
  | swap | rzz | ccx | cswap
  | measure | reset | barrier | snapshot
  deriving DecidableEq, Repr, Inhabited

namespace Tag

/-- Every kind, in the order of the declaration. -/
def all : List Tag :=
  [id, x, y, z, h, s, sdg, t, tdg, rx, ry, rz, u1, u2, u3, cx, cy, cz, ch, crz, cu1, cu3,
    swap, rzz, ccx, cswap, measure, reset, barrier, snapshot]

theorem mem_all (tag : Tag) : tag ∈ all := by cases tag <;> decide

/-- The name of an operation kind, by which it is hashed, stored and shown. -/
def name : Tag → String
  | id => "id" | x => "x" | y => "y" | z => "z" | h => "h" | s => "s" | sdg => "sdg"
  | t => "t" | tdg => "tdg" | rx => "rx" | ry => "ry" | rz => "rz"
  | u1 => "u1" | u2 => "u2" | u3 => "u3"
  | cx => "cx" | cy => "cy" | cz => "cz" | ch => "ch" | crz => "crz" | cu1 => "cu1"
  | cu3 => "cu3" | swap => "swap" | rzz => "rzz" | ccx => "ccx" | cswap => "cswap"
  | measure => "measure" | reset => "reset" | barrier => "barrier" | snapshot => "snapshot"

/-- Read-out and bookkeeping kinds, which never carry parameters. -/
def isMarker : Tag → Bool
  | measure | reset | barrier | snapshot => true
  | _ => false

/-- The kind with exactly this name. -/
def ofName? (text : String) : Option Tag := all.find? (·.name = text)

theorem ofName?_name (tag : Tag) : ofName? tag.name = some tag := by cases tag <;> decide

/-- The kind with this name, whatever the case of its ASCII letters. -/
def parse (text : String) : Except CircuitError Tag :=
  match all.find? (Text.folded ·.name = Text.folded text) with
  | some tag => .ok tag
  | none => .error (.unknownTag text (Text.nearest? text (all.map name)))

end Tag

end CircuitCache
