import CircuitCache.Tag

/-!
# Signatures

A signature is the structural identity of an operation or instruction: its kind and the flat
addresses it touches.  A shape adds the number of parameters, never their values.
-/

namespace CircuitCache

/-- The flat address of an operand. -/
abbrev Address := UInt64

/-- The kind of an operation or instruction and the addresses it touches. -/
structure Signature where
  tag : Tag
  operands : List Address
  deriving DecidableEq, Repr

namespace Signature

/-- Addresses in decimal, with a comma and a space between two of them. -/
def addressList : List Address → String
  | [] => ""
  | [a] => toString a.toNat
  | a :: rest => toString a.toNat ++ ", " ++ addressList rest

/-- The written form of a signature, such as `cx[0, 1]`. -/
def text (s : Signature) : String := s.tag.name ++ "[" ++ addressList s.operands ++ "]"

end Signature

/-- A signature together with a number of parameters. -/
structure Shape where
  signature : Signature
  arity : Nat
  deriving DecidableEq, Repr

end CircuitCache
