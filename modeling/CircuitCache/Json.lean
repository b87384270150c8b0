import CircuitCache.Binary64.Shortest
import CircuitCache.Text.Hex
import CircuitCache.Text.Utf8

/-!
# JSON values

A value is kept as it is written: numerals by their digits, strings by what stands between the
quotes, octet by octet.  What a numeral or string denotes is a function on it, so a value nobody
asks for needs no meaning.
-/

namespace CircuitCache.Json

/-- The digits of a number.  An empty fraction is no fraction; an exponent is negative or not, and
has digits. -/
structure Numeral where
  negative : Bool
  whole : List Char
  fraction : List Char
  exponent : Option (Bool × List Char)
  deriving DecidableEq, Repr

/-- A JSON value.  Strings hold their octets as written, with escapes. -/
inductive Value where
  | null
  | bool (value : Bool)
  | number (numeral : Numeral)
  | string (written : List Char)
  | array (items : List Value)
  | object (members : List (List Char × Value))
  deriving Repr

/-! ## Numerals -/

namespace Numeral

/-- The numeral of a natural number, which has neither fraction nor exponent. -/
def ofNat (n : Nat) : Numeral := ⟨false, Nat.toDigits 10 n, [], none⟩

/-- The natural number that is written without sign, point and exponent. -/
def nat? (n : Numeral) : Option Nat :=
  if n.negative = false ∧ n.fraction = [] ∧ n.exponent = none then
    some (Nat.ofDigitChars 10 n.whole 0)
  else none

/-- The exponent of ten that is written, 0 if there is none. -/
def tens (n : Numeral) : Int :=
  match n.exponent with
  | none => 0
  | some (false, ds) => Nat.ofDigitChars 10 ds 0
  | some (true, ds) => -Nat.ofDigitChars 10 ds 0

/-- Digits without the zeros at their end, and how many there were.  The digits are latest first. -/
def dropZeros : List Char → List Char × Nat
  | '0' :: rest =>
    let (ds, n) := dropZeros rest
    (ds, n + 1)
  | ds => (ds, 0)

/-- Digits `ds` with `point` of them before the point: plainly from `1e-5` up to `1e16`, otherwise
with one digit before the point and an exponent. -/
def layOut (negative : Bool) (ds : List Char) (point : Int) : Numeral :=
  let zeros (n : Int) := List.replicate n.toNat '0'
  if 0 < point ∧ point ≤ 16 then
    let n := point.toNat
    let whole := ds.take n ++ zeros (point - ds.length)
    let fraction := ds.drop n
    ⟨negative, whole, if fraction = [] then ['0'] else fraction, none⟩
  else if -5 < point ∧ point ≤ 0 then ⟨negative, ['0'], zeros (-point) ++ ds, none⟩
  else
    let e := point - 1
    ⟨negative, ds.take 1, ds.drop 1, some (decide (e < 0), Nat.toDigits 10 e.natAbs)⟩

/-- The written form of a decimal number, zeros at its end left out. -/
def ofDecimal (d : Decimal) : Numeral :=
  if d.digits = 0 then ⟨d.negative, ['0'], ['0'], none⟩
  else
    let (reversed, zeros) := dropZeros (Nat.toDigits 10 d.digits).reverse
    layOut d.negative reversed.reverse (reversed.length + zeros + d.exponent)

end Numeral

/-! ## Strings -/

/-- The letters that stand for a character after a backslash, with that character. -/
def escapes : List (Char × Char) :=
  [('"', '"'), ('\\', '\\'), ('/', '/'), ('b', '\x08'), ('f', '\x0c'), ('n', '\n'), ('r', '\r'),
    ('t', '\t')]

/-- The code unit that four hexadecimal digits denote. -/
def hex4? (p q r s : Char) : Option Nat := Text.hexValue? 0 [p, q, r, s]

/-- The octets of the character with a code point. -/
def codePoint (n : Nat) : List Char := Text.octets (String.utf8EncodeChar (Char.ofNat n))

/-- The octets that a written string denotes.  A code unit of a pair must have its partner. -/
def unescape : List Char → Option (List Char)
  | [] => some []
  | '\\' :: 'u' :: p :: q :: r :: s :: rest => do
    let high ← hex4? p q r s
    if 0xD800 ≤ high ∧ high < 0xDC00 then
      match rest with
      | '\\' :: 'u' :: p :: q :: r :: s :: rest => do
        let low ← hex4? p q r s
        if 0xDC00 ≤ low ∧ low < 0xE000 then
          let tail ← unescape rest
          return codePoint (0x10000 + (high - 0xD800) * 0x400 + (low - 0xDC00)) ++ tail
        else none
      | _ => none
    else if 0xDC00 ≤ high ∧ high < 0xE000 then none
    else
      let tail ← unescape rest
      return codePoint high ++ tail
  | '\\' :: e :: rest => do
    let c ← escapes.lookup e
    let tail ← unescape rest
    return c :: tail
  | c :: rest => if c = '\\' then none else (unescape rest).map (c :: ·)

/-- An octet as it is written: the quote, the backslash and controls are escaped. -/
def escapeOctet (c : Char) : List Char :=
  if c = '"' then ['\\', '"']
  else if c = '\\' then ['\\', '\\']
  else if c = '\x08' then ['\\', 'b']
  else if c = '\x0c' then ['\\', 'f']
  else if c = '\n' then ['\\', 'n']
  else if c = '\r' then ['\\', 'r']
  else if c = '\t' then ['\\', 't']
  else if c < ' ' then
    ['\\', 'u', '0', '0', Nat.digitChar (c.toNat / 16), Nat.digitChar (c.toNat % 16)]
  else [c]

/-- Octets as they are written between quotes. -/
def escape (cs : List Char) : List Char := cs.flatMap escapeOctet

/-- A text as it is written between quotes. -/
def written (s : String) : List Char := escape (Text.octets (Text.utf8 s))

/-- The text that a written string denotes. -/
def textOf? (cs : List Char) : Option String := do
  let octets ← unescape cs
  Text.ofUtf8? (Text.ofOctets octets)

/-- A member of an object. -/
def field (name : String) (v : Value) : List Char × Value := (written name, v)

namespace Value

/-- A text as a value. -/
def text (s : String) : Value := string (written s)

/-- A natural number as a value. -/
def nat (n : Nat) : Value := number (Numeral.ofNat n)

/-- The text that a value denotes. -/
def text? : Value → Option String
  | string cs => textOf? cs
  | _ => none

/-- The natural number below a bound that a number denotes. -/
def nat? (bound : Nat) : Value → Option Nat
  | number n => n.nat?.filter (· < bound)
  | _ => none

/-- The items of an array. -/
def items? : Value → Option (List Value)
  | array items => some items
  | _ => none

/-! ### Records -/

/-- The value of the member with a name, none if there is no such member. -/
def member? (members : List (String × Value)) (name : String) : Option (Option Value) :=
  match members.filter (·.1 = name) with
  | [] => some none
  | [(_, v)] => some (some v)
  | _ => none

/-- The members with their names as texts. -/
def named? (members : List (List Char × Value)) : Option (List (String × Value)) :=
  members.mapM fun (name, v) => (textOf? name).map (·, v)

/-- The fields of a record by their names.  A record is an object, whose other members are left
aside, or an array of its first fields; none of them may be given twice. -/
def fields? (names : List String) : Value → Option (List (Option Value))
  | object members => do
    let members ← named? members
    names.mapM (member? members)
  | array items =>
    if items.length ≤ names.length then
      some (items.map some ++ List.replicate (names.length - items.length) none)
    else none
  | _ => none

end Value

end CircuitCache.Json
