/-!
# The SHA-1 digest

The 160-bit digest of a sequence of bytes, written with forty hexadecimal digits.
-/

namespace CircuitCache.Sha1

/-- The five words that the digest of the blocks read so far consists of. -/
structure State where
  a : UInt32
  b : UInt32
  c : UInt32
  d : UInt32
  e : UInt32
  deriving DecidableEq, Repr

/-- The digest before any block. -/
def State.initial : State := ⟨0x67452301, 0xEFCDAB89, 0x98BADCFE, 0x10325476, 0xC3D2E1F0⟩

/-- The words added one by one, modulo `2 ^ 32`. -/
def State.add (s t : State) : State := ⟨s.a + t.a, s.b + t.b, s.c + t.c, s.d + t.d, s.e + t.e⟩

/-- A word rotated to the left by `n` bits. -/
def rotateLeft (x : UInt32) (n : UInt32) : UInt32 := x <<< n ||| x >>> (32 - n)

/-! ### Blocks -/

/-- The low `8 * count` bits of a number as bytes, the highest first. -/
def bigEndian (n : Nat) (count : Nat) : List UInt8 :=
  (List.range count).reverse.map fun i => UInt8.ofNat (n >>> (8 * i))

/-- The message, a set bit, as many zeros as needed, and the length of the message in bits. -/
def padded (bytes : List UInt8) : List UInt8 :=
  let zeros := (119 - bytes.length % 64) % 64
  bytes ++ 0x80 :: List.replicate zeros 0 ++ bigEndian (8 * bytes.length) 8

/-- Bytes as words, four bytes to a word, the highest first. -/
def words : List UInt8 → List UInt32
  | p :: q :: r :: s :: rest =>
    (p.toUInt32 <<< 24 ||| q.toUInt32 <<< 16 ||| r.toUInt32 <<< 8 ||| s.toUInt32) :: words rest
  | _ => []

/-- The first `count` blocks of sixteen words. -/
def blocks : (count : Nat) → List UInt32 → List (List UInt32)
  | 0, _ => []
  | count + 1, ws => ws.take 16 :: blocks count (ws.drop 16)

/-! ### Rounds -/

/-- One more word of the schedule, which is kept latest first. -/
def extend (schedule : List UInt32) : List UInt32 :=
  let word (i : Nat) := schedule.getD i 0
  rotateLeft (word 2 ^^^ word 7 ^^^ word 13 ^^^ word 15) 1 :: schedule

/-- The eighty words of a block's schedule. -/
def schedule (block : List UInt32) : List UInt32 :=
  (Nat.repeat extend 64 block.reverse).reverse

/-- The mixing function and the constant of round `t`. -/
def mix (t : Nat) (b c d : UInt32) : UInt32 × UInt32 :=
  if t < 20 then ((b &&& c) ||| (~~~b &&& d), 0x5A827999)
  else if t < 40 then (b ^^^ c ^^^ d, 0x6ED9EBA1)
  else if t < 60 then ((b &&& c) ||| (b &&& d) ||| (c &&& d), 0x8F1BBCDC)
  else (b ^^^ c ^^^ d, 0xCA62C1D6)

/-- Round `t` with its word of the schedule. -/
def round (s : State) : UInt32 × Nat → State
  | (w, t) =>
    let (f, k) := mix t s.b s.c s.d
    ⟨rotateLeft s.a 5 + f + s.e + k + w, s.a, rotateLeft s.b 30, s.c, s.d⟩

/-- The state after one more block. -/
def compress (s : State) (block : List UInt32) : State :=
  s.add ((schedule block).zipIdx.foldl round s)

/-! ### The digest -/

/-- The digest of bytes, as the state after their last block. -/
def digest (bytes : List UInt8) : State :=
  let message := padded bytes
  (blocks (message.length / 64) (words message)).foldl compress State.initial

/-- The digit of a number below sixteen, in lower case. -/
def hexDigit (n : Nat) : Char := "0123456789abcdef".toList.getD n '0'

/-- A word as eight digits, the highest first. -/
def hexWord (w : UInt32) : List Char :=
  [7, 6, 5, 4, 3, 2, 1, 0].map fun i => hexDigit (w.toNat >>> (4 * i) % 16)

/-- A digest as forty digits. -/
def State.hex (s : State) : String :=
  String.ofList (hexWord s.a ++ hexWord s.b ++ hexWord s.c ++ hexWord s.d ++ hexWord s.e)

end CircuitCache.Sha1
