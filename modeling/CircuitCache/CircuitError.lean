/-!
# Errors of circuits

Why a name is no operation kind, or a call to the program builder is refused.
-/

namespace CircuitCache

/-- Why a circuit cannot be read or built. -/
inductive CircuitError where
  | unknownTag (name : String) (suggestion : Option String)
  | unknownRegister (name : String) (suggestion : Option String)
  | duplicateRegister (name : String)
  | operandOutOfRange (register : String) (index size : Nat)
  deriving DecidableEq, Repr

namespace CircuitError

/-- The question that offers a near name, empty when there is none. -/
def hint : Option String → String
  | none => ""
  | some name => " (did you mean `" ++ name ++ "`?)"

/-- What is shown for an error of a circuit. -/
def message : CircuitError → String
  | unknownTag name suggestion => "unknown operation type `" ++ name ++ "`" ++ hint suggestion
  | unknownRegister name suggestion =>
    "register `" ++ name ++ "` is not declared" ++ hint suggestion
  | duplicateRegister name => "register `" ++ name ++ "` is declared twice"
  | operandOutOfRange register index size =>
    "index " ++ toString index ++ " is out of range for register `" ++ register
      ++ "` of size " ++ toString size

end CircuitError

end CircuitCache
