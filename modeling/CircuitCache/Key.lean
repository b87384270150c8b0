import CircuitCache.Program
import CircuitCache.Sha1

/-!
# Structural keys

The key of a program is a digest of its structure: kinds, addresses and numbers of parameters.
Programs that differ only in the values of parameters share a key.
-/

namespace CircuitCache

/-- A fingerprint of a program's structure. -/
structure Key where
  text : String
  deriving DecidableEq, Repr

namespace Key

/-- The eight bytes of a word, the lowest first. -/
def littleEndian (w : UInt64) : List UInt8 :=
  ([0, 8, 16, 24, 32, 40, 48, 56] : List UInt64).map fun shift => (w >>> shift).toUInt8

/-- The bytes of one shape: its name, how many addresses, the addresses, how many parameters, and a
semicolon. -/
def shapeBytes (s : Shape) : List UInt8 :=
  s.signature.tag.name.toUTF8.data.toList
    ++ littleEndian (UInt64.ofNat s.signature.operands.length)
    ++ s.signature.operands.flatMap littleEndian
    ++ littleEndian (UInt64.ofNat s.arity)
    ++ [0x3B]

/-- The bytes of a structure, which the digest is taken of. -/
def bytes (shapes : List Shape) : List UInt8 := shapes.flatMap shapeBytes

/-- The key of a program: the digest of its shapes, so the same for all parameters. -/
def ofProgram (p : Program) : Key := ⟨(Sha1.digest (bytes p.shapes)).hex⟩

end Key

end CircuitCache
