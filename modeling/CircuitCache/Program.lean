import CircuitCache.Binary64
import CircuitCache.Signature

/-!
# Source programs

A program is a tree of steps: operations, and named groups of steps.  `Program.unrolled` is the
list of its operations in order, which all positions refer to; `Step.tokens` keeps the groups.
-/

namespace CircuitCache

/-- A parameter as the caller gave it. -/
inductive Param where
  | float (value : Binary64)
  | int (value : Int)
  deriving DecidableEq, Repr

/-- A parameter as compiled jobs carry it. -/
def Param.word : Param → Binary64
  | float value => value
  | int value => Binary64.ofInt value

/-- An operation on flat addresses. -/
structure Operation where
  tag : Tag
  operands : List Address
  params : List Param
  deriving DecidableEq, Repr

namespace Operation

/-- The signature, which ignores the parameters. -/
def signature (op : Operation) : Signature := ⟨op.tag, op.operands⟩

/-- The shape, which ignores the parameters but not how many there are. -/
def shape (op : Operation) : Shape := ⟨op.signature, op.params.length⟩

/-- Whether there is a parameter to patch. -/
def isParameterized (op : Operation) : Bool := !op.params.isEmpty

/-- The parameters as compiled jobs carry them. -/
def words (op : Operation) : List Binary64 := op.params.map Param.word

end Operation

/-! ## Steps -/

/-- An operation, or a named group that stands for its steps. -/
inductive Step where
  | op (operation : Operation)
  | composite (name : String) (steps : List Step)
  deriving Repr

/-- A step tree written out: operations, and where groups begin and end. -/
inductive Token where
  | op (operation : Operation)
  | opens (name : String)
  | closes (name : String)
  deriving DecidableEq, Repr

mutual

/-- The operations of a step, groups expanded. -/
def Step.unrolled : Step → List Operation
  | .op operation => [operation]
  | .composite _ steps => Step.unrolledAll steps

/-- The operations of steps in order, groups expanded. -/
def Step.unrolledAll : List Step → List Operation
  | [] => []
  | step :: rest => step.unrolled ++ Step.unrolledAll rest

end

mutual

/-- A step written out, a group between its two marks. -/
def Step.tokens : Step → List Token
  | .op operation => [.op operation]
  | .composite name steps => .opens name :: Step.tokensAll steps ++ [.closes name]

/-- Steps written out in order. -/
def Step.tokensAll : List Step → List Token
  | [] => []
  | step :: rest => step.tokens ++ Step.tokensAll rest

end

theorem Step.tokensAll_append (xs ys : List Step) :
    Step.tokensAll (xs ++ ys) = Step.tokensAll xs ++ Step.tokensAll ys := by
  induction xs with
  | nil => rfl
  | cons x xs ih => simp [Step.tokensAll, ih]

/-! ## Programs -/

/-- A named run of addresses or classical bits. -/
structure Register where
  name : String
  size : Nat
  deriving DecidableEq, Repr

/-- A circuit: its quantum registers and its steps. -/
structure Program where
  name : String
  registers : List Register
  steps : List Step
  deriving Repr

namespace Program

/-- The program that is just a list of operations. -/
def ofOperations (name : String) (operations : List Operation) : Program :=
  ⟨name, [], operations.map Step.op⟩

/-- The operations in order, groups expanded. -/
def unrolled (p : Program) : List Operation := Step.unrolledAll p.steps

theorem unrolled_ofOperations (name : String) (operations : List Operation) :
    (ofOperations name operations).unrolled = operations := by
  induction operations with
  | nil => rfl
  | cons op rest ih => exact congrArg (op :: ·) ih

/-- The steps written out, with the marks of all groups. -/
def tokens (p : Program) : List Token := Step.tokensAll p.steps

/-- The structure of a program: the shapes of its operations in order. -/
def shapes (p : Program) : List Shape := p.unrolled.map Operation.shape

/-- How many of the operations have parameters. -/
def parameterizedCount (p : Program) : Nat := p.unrolled.countP Operation.isParameterized

end Program

end CircuitCache
