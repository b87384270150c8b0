/-!
# Texts as bytes

A text is stored as its bytes in UTF-8.  Readers of stored text work on characters that stand for
single bytes, `Text.octets`, since stored bytes need not form a text.
-/

namespace CircuitCache

/-- The content of a file, or of anything else that is stored. -/
abbrev Bytes := List UInt8

namespace Text

/-- The bytes of a text. -/
def utf8 (s : String) : Bytes := s.toUTF8.data.toList

/-- The text with these bytes, if they are well formed. -/
def ofUtf8? (bytes : Bytes) : Option String := String.fromUTF8? ⟨bytes.toArray⟩

/-- The characters that are the first `n` bytes of a text, if there are so many and none is cut. -/
def firstBytes? : (n : Nat) → List Char → Option (List Char)
  | 0, _ => some []
  | _, [] => none
  | n, c :: rest =>
    if c.utf8Size ≤ n then (firstBytes? (n - c.utf8Size) rest).map (c :: ·) else none

/-- Bytes as the characters of the same numbers. -/
def octets (bytes : Bytes) : List Char := bytes.map fun b => Char.ofNat b.toNat

/-- The bytes that characters stand for. -/
def ofOctets (cs : List Char) : Bytes := cs.map fun c => UInt8.ofNat c.toNat

/-- A byte sequence is UTF-8 exactly when it is the bytes of a text. -/
theorem ofUtf8?_utf8 (s : String) : ofUtf8? (utf8 s) = some s := by
  have h : (⟨s.toUTF8.data.toList.toArray⟩ : ByteArray) = s.toByteArray := rfl
  unfold ofUtf8? utf8
  rw [h, String.fromUTF8?, dif_pos s.isValidUTF8]
  rfl

theorem ofOctets_octets (bytes : Bytes) : ofOctets (octets bytes) = bytes := by
  have code : ∀ n : Fin 256, (Char.ofNat n).toNat = n := by decide +kernel
  have key (b : UInt8) : UInt8.ofNat (Char.ofNat b.toNat).toNat = b := by
    rw [code ⟨b.toNat, b.toNat_lt⟩, UInt8.ofNat_toNat]
  simp [ofOctets, octets, Function.comp_def, key]

end Text

end CircuitCache
