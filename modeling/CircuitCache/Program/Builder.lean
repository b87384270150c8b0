import CircuitCache.Program

/-!
# Building programs call by call

Operands are given as places in declared registers.  The address of a place is its index plus the
sizes of the quantum registers declared before; places of classical registers are checked and then
left out.  The first refused call is kept, and `build` reports it.
-/

namespace CircuitCache

/-- A call to the builder. -/
inductive Call where
  | register (name : String) (size : Nat)
  | classical (name : String) (size : Nat)
  | opens (name : String)
  | closes
  | op (tag : Tag) (places : List (String × Nat)) (params : List Param)
  deriving DecidableEq, Repr

/-- A group that is still open: its name, and the steps that were suspended when it began. -/
structure Frame where
  name : String
  suspended : List Step
  deriving Repr

/-- A program under construction. -/
structure Builder where
  name : String
  registers : List Register
  classical : List Register
  frames : List Frame
  steps : List Step
  error : Option CircuitError
  deriving Repr

namespace Builder

/-- A builder to which no call has been made. -/
def empty (name : String) : Builder := ⟨name, [], [], [], [], none⟩

/-! ### Places -/

/-- The declared registers, quantum ones first. -/
def declared (b : Builder) : List Register := b.registers ++ b.classical

/-- Whether there is a register with a name, quantum or classical. -/
def isDeclared (b : Builder) (name : String) : Bool := b.declared.any (·.name = name)

/-- A register by name with the sum of the sizes before it, the first of which is `offset`. -/
def find? (name : String) : (offset : Nat) → List Register → Option (Register × Nat)
  | _, [] => none
  | offset, r :: rest =>
    if r.name = name then some (r, offset) else find? name (offset + r.size) rest

/-- The address of a place, none for a place of a classical register. -/
def resolve (b : Builder) (name : String) (index : Nat) : Except CircuitError (Option Address) :=
  match find? name 0 b.registers with
  | some (r, offset) =>
    if index < r.size then .ok (some (UInt64.ofNat (offset + index)))
    else .error (.operandOutOfRange r.name index r.size)
  | none =>
    match find? name 0 b.classical with
    | some (r, _) =>
      if index < r.size then .ok none else .error (.operandOutOfRange r.name index r.size)
    | none =>
      .error (.unknownRegister name (Text.nearest? name (b.declared.map Register.name)))

/-- The addresses of places in order, or the error of the first bad one. -/
def resolveAll (b : Builder) : List (String × Nat) → Except CircuitError (List Address)
  | [] => .ok []
  | (name, index) :: rest =>
    match b.resolve name index with
    | .error e => .error e
    | .ok place =>
      match b.resolveAll rest with
      | .error e => .error e
      | .ok addresses => .ok (place.toList ++ addresses)

/-! ### Calls -/

/-- Keeps an error unless one is kept already. -/
def fail (b : Builder) (e : CircuitError) : Builder := { b with error := b.error.or (some e) }

/-- Appends a step to the innermost open group. -/
def push (b : Builder) (step : Step) : Builder := { b with steps := b.steps ++ [step] }

/-- Closes the innermost open group, if there is one. -/
def close (b : Builder) : Builder :=
  match b.frames with
  | [] => b
  | f :: rest => { b with frames := rest, steps := f.suspended ++ [.composite f.name b.steps] }

/-- One call.  After an error the calls still take effect, and the first error is kept. -/
def apply (b : Builder) : Call → Builder
  | .register name size =>
    if b.isDeclared name then b.fail (.duplicateRegister name)
    else { b with registers := b.registers ++ [⟨name, size⟩] }
  | .classical name size =>
    if b.isDeclared name then b.fail (.duplicateRegister name)
    else { b with classical := b.classical ++ [⟨name, size⟩] }
  | .opens name => { b with frames := ⟨name, b.steps⟩ :: b.frames, steps := [] }
  | .closes => b.close
  | .op tag places params =>
    match b.resolveAll places with
    | .error e => b.fail e
    | .ok operands => b.push (.op ⟨tag, operands, params⟩)

/-- Closes the groups of these frames, the innermost first, around the steps so far. -/
def closeAll : List Frame → List Step → List Step
  | [], steps => steps
  | f :: rest, steps => closeAll rest (f.suspended ++ [.composite f.name steps])

/-- The finished program, with every open group closed, or the first error. -/
def build (b : Builder) : Except CircuitError Program :=
  match b.error with
  | some e => .error e
  | none => .ok ⟨b.name, b.registers, closeAll b.frames b.steps⟩

end Builder

/-- The program of calls, or the error of the first bad one. -/
def Program.ofCalls (name : String) (calls : List Call) : Except CircuitError Program :=
  (calls.foldl Builder.apply (Builder.empty name)).build

end CircuitCache
