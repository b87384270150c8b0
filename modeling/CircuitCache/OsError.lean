/-!
# Errors of files
-/

namespace CircuitCache

/-- Why the system refuses an operation on a file. -/
inductive OsError where
  | notFound
  | alreadyThere
  | notADirectory
  | isADirectory
  | nameTooLong
  | badName
  | other (text : String)
  deriving DecidableEq, Repr

namespace OsError

/-- What the system says about an error. -/
def message : OsError → String
  | notFound => "No such file or directory (os error 2)"
  | alreadyThere => "File exists (os error 17)"
  | notADirectory => "Not a directory (os error 20)"
  | isADirectory => "Is a directory (os error 21)"
  | nameTooLong => "File name too long (os error 36)"
  | badName => "file name contained an unexpected NUL byte"
  | other text => text

/-- The error with a number, which may be negated, and which the system describes in these words. -/
def ofNumber (number : Int) (words : String) : OsError :=
  match number.natAbs with
  | 2 => notFound
  | 17 => alreadyThere
  | 20 => notADirectory
  | 21 => isADirectory
  | 36 => nameTooLong
  | n => other (words.capitalize ++ " (os error " ++ toString n ++ ")")

end OsError

end CircuitCache
