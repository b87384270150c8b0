import CircuitCache.Json

/-!
# Writing JSON

Values are written without white space, members in their order.
-/

namespace CircuitCache.Json

/-- The written form of an exponent, with its sign. -/
def Numeral.printExponent : Option (Bool × List Char) → List Char
  | none => []
  | some (negative, ds) => 'e' :: (if negative then '-' else '+') :: ds

/-- A numeral in its own notation: nothing is rounded or brought to a common form. -/
def Numeral.print (n : Numeral) : List Char :=
  (if n.negative then ['-'] else []) ++ n.whole
    ++ (if n.fraction = [] then [] else '.' :: n.fraction) ++ Numeral.printExponent n.exponent

/-- A string between quotes; what needs an escape has been escaped already. -/
def printString (cs : List Char) : List Char := '"' :: cs ++ ['"']

namespace Value

mutual

/-- A value without white space. -/
def print : Value → List Char
  | null => "null".toList
  | bool true => "true".toList
  | bool false => "false".toList
  | number n => n.print
  | string cs => printString cs
  | array [] => ['[', ']']
  | array (v :: vs) => '[' :: print v ++ printItems vs
  | object [] => ['{', '}']
  | object ((name, v) :: ms) => '{' :: printString name ++ ':' :: print v ++ printMembers ms

/-- The items after the first, and the bracket. -/
def printItems : List Value → List Char
  | [] => [']']
  | v :: vs => ',' :: print v ++ printItems vs

/-- The members after the first, and the brace. -/
def printMembers : List (List Char × Value) → List Char
  | [] => ['}']
  | (name, v) :: ms => ',' :: printString name ++ ':' :: print v ++ printMembers ms

end

end Value

end CircuitCache.Json
