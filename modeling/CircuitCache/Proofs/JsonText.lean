import Mathlib
import CircuitCache.Json.Printer
import CircuitCache.Json.Reader

/-!
# Reading what was printed

A value whose numerals have digits in the right places and whose strings are escaped octets is
legible, and reading its printed form gives it back (`Value.read_print`), also through bytes.
-/

namespace CircuitCache.Json

/-! ## Strings -/

theorem hex4?_control {c : Char} (h : c < ' ') :
    hex4? '0' '0' (Nat.digitChar (c.toNat / 16)) (Nat.digitChar (c.toNat % 16)) =
      some c.toNat := by
  have hall : ∀ n < 32,
      hex4? '0' '0' (Nat.digitChar (n / 16)) (Nat.digitChar (n % 16)) = some n := by decide
  exact hall c.toNat h

/-- An octet is written with a letter of its own, with its number, or as it is. -/
theorem escapeOctet_cases (c : Char) :
    (∃ e, escapeOctet c = ['\\', e] ∧ e ≠ 'u' ∧ escapes.lookup e = some c) ∨
    (c < ' ' ∧ escapeOctet c =
      ['\\', 'u', '0', '0', Nat.digitChar (c.toNat / 16), Nat.digitChar (c.toNat % 16)]) ∨
    (¬c < ' ' ∧ c ≠ '"' ∧ c ≠ '\\' ∧ escapeOctet c = [c]) := by
  unfold escapeOctet
  by_cases hquote : c = '"'
  · exact .inl ⟨'"', by rw [if_pos hquote], by decide, by rw [hquote]; rfl⟩
  by_cases hslash : c = '\\'
  · exact .inl ⟨'\\', by rw [if_neg hquote, if_pos hslash], by decide, by rw [hslash]; rfl⟩
  rw [if_neg hquote, if_neg hslash]
  by_cases hb : c = '\x08'
  · exact .inl ⟨'b', by rw [if_pos hb], by decide, hb ▸ rfl⟩
  rw [if_neg hb]
  by_cases hf : c = '\x0c'
  · exact .inl ⟨'f', by rw [if_pos hf], by decide, hf ▸ rfl⟩
  rw [if_neg hf]
  by_cases hn : c = '\n'
  · exact .inl ⟨'n', by rw [if_pos hn], by decide, hn ▸ rfl⟩
  rw [if_neg hn]
  by_cases hr : c = '\r'
  · exact .inl ⟨'r', by rw [if_pos hr], by decide, hr ▸ rfl⟩
  rw [if_neg hr]
  by_cases ht : c = '\t'
  · exact .inl ⟨'t', by rw [if_pos ht], by decide, ht ▸ rfl⟩
  rw [if_neg ht]
  by_cases hcontrol : c < ' '
  · exact .inr (.inl ⟨hcontrol, if_pos hcontrol⟩)
  · exact .inr (.inr ⟨hcontrol, hquote, hslash, if_neg hcontrol⟩)

theorem escape_cons (c : Char) (os : List Char) : escape (c :: os) = escapeOctet c ++ escape os :=
  List.flatMap_cons

/-- An escaped string ends at its closing quote. -/
theorem readString_escape (os rest : List Char) :
    readString (escape os ++ '"' :: rest) = some (escape os, rest) := by
  induction os with
  | nil => rfl
  | cons c os ih =>
    rw [escape_cons, List.append_assoc]
    obtain ⟨e, hc, hu, he⟩ | ⟨hcontrol, hc⟩ | ⟨hcontrol, hquote, hslash, hc⟩ := escapeOctet_cases c
    · rw [hc]
      simp only [List.cons_append, List.nil_append]
      rw [readString, he, ih]
      · rfl
      · exact fun _ _ _ _ _ h _ => hu h
    · rw [hc]
      simp only [List.cons_append, List.nil_append]
      rw [readString, hex4?_control hcontrol, ih]
      rfl
    · rw [hc, List.singleton_append, readString, if_neg hcontrol, ih]
      · rfl
      · exact hquote
      · exact fun _ _ _ _ _ h _ => hslash h
      · exact fun _ _ h _ => hslash h

/-- Octets are read back from their escaped form. -/
theorem unescape_escape (os : List Char) : unescape (escape os) = some os := by
  induction os with
  | nil => rfl
  | cons c os ih =>
    rw [escape_cons]
    obtain ⟨e, hc, hu, he⟩ | ⟨hcontrol, hc⟩ | ⟨hcontrol, hquote, hslash, hc⟩ := escapeOctet_cases c
    · rw [hc]
      simp only [List.cons_append, List.nil_append]
      rw [unescape, he, ih]
      · rfl
      · exact fun _ _ _ _ _ h _ => hu h
    · have hcode : ∀ n < 32, codePoint n = [Char.ofNat n] := by decide
      have hlt : c.toNat < 32 := hcontrol
      rw [hc]
      simp only [List.cons_append, List.nil_append]
      rw [unescape.eq_2, hex4?_control hcontrol]
      simp only [Option.bind_eq_bind, Option.bind_some]
      rw [if_neg (by omega), if_neg (by omega), ih, hcode c.toNat hlt, Char.ofNat_toNat]
      rfl
    · rw [hc, List.singleton_append, unescape, if_neg hslash, ih]
      · rfl
      · exact fun _ _ _ _ _ h _ => hslash h
      · exact fun _ _ h _ => hslash h

theorem textOf?_written (s : String) : textOf? (written s) = some s := by
  rw [textOf?, written, unescape_escape]
  simp only [Option.bind_eq_bind, Option.bind_some]
  rw [Text.ofOctets_octets, Text.ofUtf8?_utf8]

/-! ## Octets -/

/-- Characters that stand for bytes. -/
def AreOctets (cs : List Char) : Prop := ∀ c ∈ cs, c.toNat < 256

theorem areOctets_nil : AreOctets [] := fun _ h => by cases h

theorem areOctets_cons_iff {c : Char} {cs : List Char} :
    AreOctets (c :: cs) ↔ c.toNat < 256 ∧ AreOctets cs := List.forall_mem_cons

theorem areOctets_append_iff {cs ds : List Char} :
    AreOctets (cs ++ ds) ↔ AreOctets cs ∧ AreOctets ds := List.forall_mem_append

theorem octets_ofOctets {cs : List Char} (h : AreOctets cs) :
    Text.octets (Text.ofOctets cs) = cs := by
  rw [Text.octets, Text.ofOctets, List.map_map]
  refine (List.map_congr_left fun c hc => ?_).trans (List.map_id cs)
  show Char.ofNat (UInt8.ofNat c.toNat).toNat = c
  rw [UInt8.toNat_ofNat_of_lt' (h c hc), Char.ofNat_toNat]

theorem areOctets_octets (bytes : Bytes) : AreOctets (Text.octets bytes) := by
  intro c hc
  obtain ⟨b, -, rfl⟩ := List.mem_map.1 hc
  have hall : ∀ n < 256, (Char.ofNat n).toNat < 256 := by decide +kernel
  exact hall b.toNat b.toNat_lt

theorem areOctets_of_isDigit {cs : List Char} (h : ∀ c ∈ cs, c.isDigit = true) : AreOctets cs := by
  intro c hc
  have hdigit := h c hc
  rw [Char.isDigit, Bool.and_eq_true, decide_eq_true_eq, decide_eq_true_eq] at hdigit
  exact lt_of_le_of_lt (UInt32.le_iff_toNat_le.1 hdigit.2) (by decide)

theorem areOctets_escape {os : List Char} (h : AreOctets os) : AreOctets (escape os) := by
  induction os with
  | nil => exact areOctets_nil
  | cons c os ih =>
    rw [areOctets_cons_iff] at h
    rw [escape_cons, areOctets_append_iff]
    refine ⟨?_, ih h.2⟩
    obtain ⟨e, hc, -, he⟩ | ⟨hcontrol, hc⟩ | ⟨-, -, -, hc⟩ := escapeOctet_cases c
    · have hletters : ∀ ec ∈ escapes, ec.1.toNat < 256 := by decide
      obtain ⟨before, after, hsplit, -⟩ := List.lookup_eq_some_iff.1 he
      rw [hsplit] at hletters
      rw [hc, areOctets_cons_iff, areOctets_cons_iff]
      exact ⟨by decide, hletters (e, c) (List.mem_append_right before List.mem_cons_self),
        areOctets_nil⟩
    · have hdigit : ∀ n < 16, (Nat.digitChar n).toNat < 256 := by decide
      have hlt : c.toNat < 32 := hcontrol
      rw [hc]
      simp only [areOctets_cons_iff]
      exact ⟨by decide, by decide, by decide, by decide, hdigit _ (by omega), hdigit _ (by omega),
        areOctets_nil⟩
    · rw [hc, areOctets_cons_iff]
      exact ⟨h.1, areOctets_nil⟩

/-! ## Numerals -/

/-- Digits of a whole number without needless zeros. -/
structure IsWhole (ds : List Char) : Prop where
  digits : ∀ c ∈ ds, c.isDigit = true
  nonempty : ds ≠ []
  leading : ds = ['0'] ∨ ds.head? ≠ some '0'

/-- The digits of a numeral stand where they must, and nothing else does. -/
structure Numeral.Legible (n : Numeral) : Prop where
  whole : IsWhole n.whole
  fraction : ∀ c ∈ n.fraction, c.isDigit = true
  exponent : ∀ e ∈ n.exponent, e.2 ≠ [] ∧ ∀ c ∈ e.2, c.isDigit = true

/-- What follows does not go on with a digit. -/
def NoDigit (cs : List Char) : Prop := ∀ c ∈ cs.head?, c.isDigit = false

theorem splitDigits_append {ds rest : List Char} (hds : ∀ c ∈ ds, c.isDigit = true)
    (hrest : NoDigit rest) : Decimal.splitDigits (ds ++ rest) = (ds, rest) := by
  have htake : rest.takeWhile Char.isDigit = [] ∧ rest.dropWhile Char.isDigit = rest := by
    cases rest with
    | nil => exact ⟨rfl, rfl⟩
    | cons c rest =>
      have hc : c.isDigit = false := hrest c rfl
      simp [hc]
  rw [Decimal.splitDigits, List.span_eq_takeWhile_dropWhile, List.takeWhile_append_of_pos hds,
    List.dropWhile_append_of_pos hds, htake.1, htake.2, List.append_nil]

theorem readWhole_append {ds rest : List Char} (h : IsWhole ds) (hrest : NoDigit rest) :
    readWhole (ds ++ rest) = some (ds, rest) := by
  rw [readWhole, splitDigits_append h.digits hrest]
  obtain ⟨c, cs, rfl⟩ := List.exists_cons_of_ne_nil h.nonempty
  rcases h.leading with hzero | hhead
  · rw [hzero]
    rfl
  · have hc : c ≠ '0' := fun hc => hhead (hc ▸ rfl)
    split
    · next heq => cases heq
    · next heq =>
      simp only [Prod.mk.injEq, List.cons.injEq] at heq
      exact absurd heq.1.1 hc
    · next heq =>
      simp only [Prod.mk.injEq, List.cons.injEq] at heq
      exact absurd heq.1.1 hc
    · next heq => rw [Prod.mk.injEq] at heq; rw [heq.1, heq.2]

/-- What may follow a value: nothing, or a mark of an array or object. -/
def Stops (cs : List Char) : Prop := ∀ c ∈ cs.head?, c = ',' ∨ c = ']' ∨ c = '}'

theorem Stops.noDigit {cs : List Char} (h : Stops cs) : NoDigit cs := by
  intro c hc
  rcases h c hc with rfl | rfl | rfl <;> rfl

theorem readExponent_append {e : Option (Bool × List Char)} {rest : List Char}
    (he : ∀ x ∈ e, x.2 ≠ [] ∧ ∀ c ∈ x.2, c.isDigit = true) (hrest : Stops rest) :
    readExponent (Numeral.printExponent e ++ rest) = some (e, rest) := by
  rcases e with _ | ⟨negative, ds⟩
  · rw [Numeral.printExponent, List.nil_append]
    cases rest with
    | nil => rfl
    | cons c rest =>
      have hc : ¬(c = 'e' ∨ c = 'E') := by
        rcases hrest c rfl with rfl | rfl | rfl <;> decide
      rw [readExponent, if_neg hc]
  · obtain ⟨hne, hds⟩ := he (negative, ds) rfl
    have hsign : Decimal.splitSign ((if negative then '-' else '+') :: (ds ++ rest)) =
        (negative, ds ++ rest) := by
      cases negative <;> rfl
    rw [Numeral.printExponent]
    simp only [List.cons_append, readExponent, true_or, if_true, hsign,
      splitDigits_append hds hrest.noDigit]

theorem readFraction_append {ds rest : List Char} (hds : ∀ c ∈ ds, c.isDigit = true)
    (hrest : NoDigit rest) (hpoint : rest.head? ≠ some '.') :
    readFraction ((if ds = [] then [] else '.' :: ds) ++ rest) = some (ds, rest) := by
  by_cases h : ds = []
  · rw [if_pos h, List.nil_append, h]
    cases rest with
    | nil => rfl
    | cons c rest =>
      rw [readFraction]
      rintro cs ⟨⟩
      exact hpoint rfl
  · rw [if_neg h, List.cons_append, readFraction, splitDigits_append hds hrest]
    cases ds with
    | nil => exact absurd rfl h
    | cons d ds => rfl

theorem readNumeral_print {n : Numeral} (h : n.Legible) {rest : List Char} (hrest : Stops rest) :
    readNumeral (n.print ++ rest) = some (n, rest) := by
  have hexponent := readExponent_append h.exponent hrest
  have hmark : ∀ c ∈ (Numeral.printExponent n.exponent ++ rest).head?,
      c.isDigit = false ∧ c ≠ '.' := by
    intro c hc
    rcases hexp : n.exponent with _ | x
    · rw [hexp, Numeral.printExponent, List.nil_append] at hc
      rcases hrest c hc with rfl | rfl | rfl <;> decide
    · rw [hexp, Numeral.printExponent, List.cons_append, List.head?_cons, Option.mem_def,
        Option.some_inj] at hc
      subst hc
      decide
  have hfraction := readFraction_append h.fraction (fun c hc => (hmark c hc).1)
    fun hpoint => (hmark '.' hpoint).2 rfl
  have hdigit : NoDigit ((if n.fraction = [] then [] else '.' :: n.fraction) ++
      (Numeral.printExponent n.exponent ++ rest)) := by
    intro c hc
    by_cases hempty : n.fraction = []
    · rw [if_pos hempty, List.nil_append] at hc
      exact (hmark c hc).1
    · rw [if_neg hempty, List.cons_append, List.head?_cons, Option.mem_def, Option.some_inj] at hc
      subst hc
      rfl
  have hwhole := readWhole_append h.whole hdigit
  obtain ⟨negative, whole, fraction, exponent⟩ := n
  simp only at hexponent hfraction hwhole
  rw [Numeral.print, List.append_assoc, List.append_assoc, List.append_assoc]
  cases negative
  · rw [if_neg Bool.false_ne_true, List.nil_append, readNumeral]
    · simp only [hwhole, hfraction, hexponent, Option.bind_eq_bind, Option.bind_some]
      rfl
    · intro cs heq
      have hdash : '-' ∈ whole := by
        obtain ⟨c, ds, rfl⟩ := List.exists_cons_of_ne_nil h.whole.nonempty
        rw [List.cons_append, List.cons.injEq] at heq
        exact heq.1 ▸ List.mem_cons_self
      exact absurd (h.whole.digits '-' hdash) (by decide)
  · rw [if_pos rfl, List.singleton_append, readNumeral]
    simp only [hwhole, hfraction, hexponent, Option.bind_eq_bind, Option.bind_some]
    rfl

/-! ### Numerals of numbers -/

theorem head?_toDigits_ne_zero {n : Nat} (h : n ≠ 0) : (Nat.toDigits 10 n).head? ≠ some '0' := by
  induction n using Nat.strong_induction_on with
  | _ n ih =>
    by_cases hlt : n < 10
    · have hall : ∀ m < 10, m ≠ 0 → Nat.digitChar m ≠ '0' := by decide
      rw [Nat.toDigits_of_lt_base hlt, List.head?_cons, ne_eq, Option.some_inj]
      exact hall n hlt h
    · rw [Nat.toDigits_of_base_le (by decide) (Nat.not_lt.1 hlt),
        List.head?_append_of_ne_nil _ Nat.toDigits_ne_nil]
      exact ih (n / 10) (by omega) (by omega)

theorem isWhole_toDigits (n : Nat) : IsWhole (Nat.toDigits 10 n) where
  digits _ hc := Nat.isDigit_of_mem_toDigits (by decide) (by decide) hc
  nonempty := Nat.toDigits_ne_nil
  leading := by
    by_cases h : n = 0
    · exact .inl (by rw [h]; rfl)
    · exact .inr (head?_toDigits_ne_zero h)

theorem isWhole_zero : IsWhole ['0'] := ⟨by simp, List.cons_ne_nil '0' [], .inl rfl⟩

theorem legible_ofNat (n : Nat) : (Numeral.ofNat n).Legible :=
  ⟨isWhole_toDigits n, fun _ h => by simp [Numeral.ofNat] at h,
    fun _ h => by simp [Numeral.ofNat] at h⟩

theorem dropZeros_fst (ds : List Char) :
    (Numeral.dropZeros ds).1 = ds.dropWhile (· == '0') := by
  induction ds with
  | nil => rfl
  | cons d ds ih =>
    by_cases h : d = '0'
    · rw [h, Numeral.dropZeros, List.dropWhile_cons_of_pos rfl, ← ih]
    · rw [Numeral.dropZeros, List.dropWhile_cons_of_neg (by simpa using h)]
      rintro rest ⟨⟩
      exact h rfl

/-- A number without the zeros at its end still starts with a digit other than zero. -/
theorem isWhole_dropZeros {n : Nat} (h : n ≠ 0) :
    IsWhole (Numeral.dropZeros (Nat.toDigits 10 n).reverse).1.reverse ∧
      (Numeral.dropZeros (Nat.toDigits 10 n).reverse).1.reverse.head? ≠ some '0' := by
  have hzeros : (Numeral.dropZeros (Nat.toDigits 10 n).reverse).1.reverse =
      (Nat.toDigits 10 n).rdropWhile (· == '0') := by
    rw [dropZeros_fst, List.rdropWhile]
  obtain ⟨c, cs, hcons⟩ := List.exists_cons_of_ne_nil (Nat.toDigits_ne_nil (n := n) (b := 10))
  have hc : c ≠ '0' := fun hc => head?_toDigits_ne_zero h (by rw [hcons, hc]; rfl)
  have hnonempty : (Nat.toDigits 10 n).rdropWhile (· == '0') ≠ [] := by
    rw [ne_eq, List.rdropWhile_eq_nil_iff]
    intro hall
    exact hc (by simpa using hall c (hcons ▸ List.mem_cons_self))
  have hkept := List.rdropWhile_prefix (· == '0') (l := Nat.toDigits 10 n)
  have hhead : ((Nat.toDigits 10 n).rdropWhile (· == '0')).head? ≠ some '0' := by
    obtain ⟨d, ds, hd⟩ := List.exists_cons_of_ne_nil hnonempty
    rw [hd, hcons, List.cons_prefix_cons] at hkept
    rw [hd, List.head?_cons, hkept.1, ne_eq, Option.some_inj]
    exact hc
  rw [hzeros]
  exact ⟨⟨fun d hd => (isWhole_toDigits n).digits d (hkept.subset hd), hnonempty, .inr hhead⟩,
    hhead⟩

/-- Digits with a first one other than zero are laid out legibly. -/
theorem legible_layOut (negative : Bool) {ds : List Char} (point : Int) (h : IsWhole ds)
    (hhead : ds.head? ≠ some '0') : (Numeral.layOut negative ds point).Legible := by
  obtain ⟨d, ds, rfl⟩ := List.exists_cons_of_ne_nil h.nonempty
  have hzeros (n : Nat) : ∀ c ∈ List.replicate n '0', c.isDigit = true := fun c hc => by
    rw [List.eq_of_mem_replicate hc]
    rfl
  have hnone : ∀ e ∈ (none : Option (Bool × List Char)), e.2 ≠ [] ∧ ∀ c ∈ e.2, c.isDigit = true :=
    fun e he => by cases he
  unfold Numeral.layOut
  split
  · next hpoint =>
    obtain ⟨n, hn⟩ : ∃ n, point.toNat = n + 1 := ⟨point.toNat - 1, by omega⟩
    refine ⟨⟨?_, ?_, .inr ?_⟩, ?_, hnone⟩
    · exact List.forall_mem_append.2
        ⟨fun c hc => h.digits c (List.mem_of_mem_take hc), hzeros _⟩
    · simp [hn]
    · simpa [hn] using hhead
    · intro c hc
      simp only at hc
      split at hc
      · rw [List.mem_singleton.1 hc]
        rfl
      · exact h.digits c (List.mem_of_mem_drop hc)
  · split
    · exact ⟨isWhole_zero, List.forall_mem_append.2 ⟨hzeros _, h.digits⟩, hnone⟩
    · refine ⟨⟨fun c hc => h.digits c (List.mem_of_mem_take hc), by simp, .inr ?_⟩,
        fun c hc => h.digits c (List.mem_of_mem_drop hc), ?_⟩
      · simpa using hhead
      · rintro e ⟨⟩
        exact ⟨Nat.toDigits_ne_nil, (isWhole_toDigits _).digits⟩

theorem legible_ofDecimal (d : Decimal) : (Numeral.ofDecimal d).Legible := by
  unfold Numeral.ofDecimal
  by_cases h : d.digits = 0
  · rw [if_pos h]
    exact ⟨isWhole_zero, by simp, by simp⟩
  · rw [if_neg h]
    obtain ⟨hwhole, hhead⟩ := isWhole_dropZeros h
    exact legible_layOut d.negative _ hwhole hhead

theorem areOctets_print {n : Numeral} (h : n.Legible) : AreOctets n.print := by
  rw [Numeral.print, areOctets_append_iff, areOctets_append_iff, areOctets_append_iff]
  refine ⟨⟨⟨?_, areOctets_of_isDigit h.whole.digits⟩, ?_⟩, ?_⟩
  · cases n.negative <;> simp [AreOctets]
  · split
    · exact areOctets_nil
    · exact areOctets_cons_iff.2 ⟨by decide, areOctets_of_isDigit h.fraction⟩
  · rcases hexp : n.exponent with _ | ⟨negative, ds⟩
    · exact areOctets_nil
    · have hds := areOctets_of_isDigit (h.exponent (negative, ds) hexp).2
      rw [Numeral.printExponent, areOctets_cons_iff, areOctets_cons_iff]
      exact ⟨by decide, by cases negative <;> decide, hds⟩

/-! ## Values -/

namespace Value

/-- Values whose printed form can be read. -/
inductive Legible : Value → Prop where
  | null : Legible null
  | bool (b : Bool) : Legible (bool b)
  | number {n : Numeral} (h : n.Legible) : Legible (number n)
  | string {os : List Char} (h : AreOctets os) : Legible (string (escape os))
  | array {vs : List Value} (h : ∀ v ∈ vs, Legible v) : Legible (array vs)
  | object {ms : List (List Char × Value)}
      (names : ∀ m ∈ ms, ∃ os, AreOctets os ∧ m.1 = escape os) (h : ∀ m ∈ ms, Legible m.2) :
      Legible (object ms)

theorem legible_text (s : String) : (text s).Legible :=
  .string (areOctets_octets (Text.utf8 s))

theorem legible_nat (n : Nat) : (nat n).Legible := .number (legible_ofNat n)

theorem skipBlank_cons {c : Char} (h : isBlank c = false) (cs : List Char) :
    skipBlank (c :: cs) = c :: cs := by
  rw [skipBlank, List.dropWhile_cons_of_neg (by rw [h]; exact Bool.false_ne_true)]

/-- What a printed value may start with. -/
def Starts (c : Char) : Prop := isBlank c = false ∧ c ≠ ']' ∧ c ≠ '}'

theorem starts_of_isDigit {c : Char} (h : c.isDigit = true) : Starts c := by
  have hne (d : Char) (hd : d.isDigit = false) : c ≠ d := fun heq => by
    rw [heq, hd] at h
    exact Bool.false_ne_true h
  refine ⟨?_, hne ']' rfl, hne '}' rfl⟩
  rw [isBlank, decide_eq_false_iff_not]
  simp [hne ' ' rfl, hne '\n' rfl, hne '\t' rfl, hne '\r' rfl]

theorem exists_print_numeral {n : Numeral} (h : n.Legible) :
    ∃ c cs, n.print = c :: cs ∧ (c = '-' ∨ c.isDigit = true) := by
  obtain ⟨c, cs, hcons⟩ := List.exists_cons_of_ne_nil h.whole.nonempty
  unfold Numeral.print
  cases n.negative
  · rw [hcons]
    exact ⟨c, _, rfl, .inr (h.whole.digits c (hcons ▸ List.mem_cons_self))⟩
  · exact ⟨'-', _, rfl, .inl rfl⟩

theorem exists_print {v : Value} (h : v.Legible) : ∃ c cs, v.print = c :: cs ∧ Starts c := by
  cases h with
  | null => exact ⟨'n', _, rfl, by decide, by decide, by decide⟩
  | bool b =>
    cases b
    · exact ⟨'f', _, rfl, by decide, by decide, by decide⟩
    · exact ⟨'t', _, rfl, by decide, by decide, by decide⟩
  | number h =>
    obtain ⟨c, cs, hprint, hc⟩ := exists_print_numeral h
    refine ⟨c, cs, by rw [print, hprint], ?_⟩
    rcases hc with rfl | hc
    · exact ⟨by decide, by decide, by decide⟩
    · exact starts_of_isDigit hc
  | string h => exact ⟨'"', _, rfl, by decide, by decide, by decide⟩
  | @array vs h =>
    cases vs with
    | nil => exact ⟨'[', _, rfl, by decide, by decide, by decide⟩
    | cons v vs => exact ⟨'[', _, by rw [print, List.cons_append], by decide, by decide, by decide⟩
  | @object ms names h =>
    cases ms with
    | nil => exact ⟨'{', _, rfl, by decide, by decide, by decide⟩
    | cons m ms =>
      exact ⟨'{', _, by rw [print, List.cons_append, List.cons_append], by decide, by decide,
        by decide⟩

/-- The value is read with fuel for twice its length, whatever stops it. -/
def Reads (v : Value) : Prop :=
  ∀ fuel rest, 2 * v.print.length ≤ fuel → Stops rest →
    readValue fuel (v.print ++ rest) = some (v, rest)

theorem reads_number {n : Numeral} (h : n.Legible) : Reads (number n) := by
  intro fuel rest hfuel hrest
  obtain ⟨c, cs, hprint, hc⟩ := exists_print_numeral h
  have hne (d : Char) (hd : d ≠ '-' ∧ d.isDigit = false) : c ≠ d := fun heq => by
    rcases hc with hc | hc
    · exact hd.1 (heq ▸ hc)
    · rw [heq, hd.2] at hc
      exact Bool.false_ne_true hc
  have hblank : isBlank c = false := by
    rcases hc with rfl | hc
    · rfl
    · exact (starts_of_isDigit hc).1
  have hread := readNumeral_print h hrest
  -- The first character of a numeral is none of those that start another kind of value.
  rw [print, hprint, List.length_cons] at hfuel
  obtain ⟨fuel, rfl⟩ : ∃ f, fuel = f + 1 := ⟨fuel - 1, by omega⟩
  rw [print, hprint, List.cons_append] at *
  rw [readValue, skipBlank_cons hblank]
  split
  · next heq => exact absurd (List.cons.inj heq).1 (hne 'n' (by decide))
  · next heq => exact absurd (List.cons.inj heq).1 (hne 't' (by decide))
  · next heq => exact absurd (List.cons.inj heq).1 (hne 'f' (by decide))
  · next heq => exact absurd (List.cons.inj heq).1 (hne '"' (by decide))
  · next heq => exact absurd (List.cons.inj heq).1 (hne '[' (by decide))
  · next heq => exact absurd (List.cons.inj heq).1 (hne '{' (by decide))
  · rw [hread]
    rfl

/-- Items are read up to the bracket. -/
theorem readItems_print {v : Value} {vs : List Value} (hv : Reads v) (hvs : ∀ w ∈ vs, Reads w)
    (fuel : Nat) (rest : List Char)
    (hfuel : 2 * (v.print.length + (printItems vs).length) ≤ fuel) :
    readItems fuel (v.print ++ (printItems vs ++ rest)) = some (v :: vs, rest) := by
  induction vs generalizing v fuel with
  | nil =>
    rw [printItems, List.length_singleton] at hfuel
    obtain ⟨fuel, rfl⟩ : ∃ f, fuel = f + 1 := ⟨fuel - 1, by omega⟩
    rw [readItems, hv fuel _ (by omega) (by simp [Stops, printItems])]
    rfl
  | cons w ws ih =>
    simp only [printItems, List.length_append, List.length_cons] at hfuel
    obtain ⟨fuel, rfl⟩ : ∃ f, fuel = f + 1 := ⟨fuel - 1, by omega⟩
    have hrest := ih (hvs w List.mem_cons_self) (fun x hx => hvs x (List.mem_cons_of_mem w hx))
      fuel (by omega)
    rw [readItems, hv fuel _ (by omega) (by simp [Stops, printItems])]
    simp only [Option.bind_eq_bind, Option.bind_some, printItems, List.cons_append,
      List.append_assoc]
    rw [skipBlank_cons rfl]
    simp only [hrest, Option.map_some]

theorem readString_name {name : List Char} (h : ∃ os, AreOctets os ∧ name = escape os)
    (rest : List Char) : readString (name ++ '"' :: rest) = some (name, rest) := by
  obtain ⟨os, -, rfl⟩ := h
  exact readString_escape os rest

theorem printString_append (name rest : List Char) :
    printString name ++ rest = '"' :: (name ++ '"' :: rest) := by
  rw [printString, List.append_assoc]
  rfl

/-- Members are read up to the brace. -/
theorem readMembers_print {name : List Char} {v : Value} {ms : List (List Char × Value)}
    (hname : ∃ os, AreOctets os ∧ name = escape os)
    (hnames : ∀ m ∈ ms, ∃ os, AreOctets os ∧ m.1 = escape os)
    (hv : Reads v) (hms : ∀ m ∈ ms, Reads m.2) (fuel : Nat) (rest : List Char)
    (hfuel : 2 * (v.print.length + (printMembers ms).length) ≤ fuel) :
    readMembers fuel (printString name ++ (':' :: (v.print ++ (printMembers ms ++ rest)))) =
      some ((name, v) :: ms, rest) := by
  induction ms generalizing name v fuel with
  | nil =>
    rw [printMembers, List.length_singleton] at hfuel
    obtain ⟨fuel, rfl⟩ : ∃ f, fuel = f + 1 := ⟨fuel - 1, by omega⟩
    have hvalue := hv fuel ('}' :: rest) (by omega) (by simp [Stops])
    rw [printString_append, readMembers, skipBlank_cons rfl]
    simp only [readString_name hname, Option.bind_eq_bind, Option.bind_some]
    rw [skipBlank_cons rfl]
    simp only [printMembers, List.singleton_append, hvalue, Option.bind_some]
    rw [skipBlank_cons rfl]
    rfl
  | cons m ms ih =>
    obtain ⟨next, w⟩ := m
    obtain ⟨hnext, hnames⟩ := List.forall_mem_cons.1 hnames
    obtain ⟨hw, hms⟩ : Reads w ∧ ∀ m ∈ ms, Reads m.2 := List.forall_mem_cons.1 hms
    simp only [printMembers, List.length_append, List.length_cons] at hfuel
    obtain ⟨fuel, rfl⟩ : ∃ f, fuel = f + 1 := ⟨fuel - 1, by omega⟩
    have hvalue := hv fuel
      (',' :: (printString next ++ (':' :: (w.print ++ (printMembers ms ++ rest))))) (by omega)
      (by simp [Stops])
    have hrest := ih hnext hnames hw hms fuel (by omega)
    rw [printString_append, readMembers, skipBlank_cons rfl]
    simp only [readString_name hname, Option.bind_eq_bind, Option.bind_some]
    rw [skipBlank_cons rfl]
    simp only [printMembers, List.cons_append, List.append_assoc, hvalue, Option.bind_some]
    rw [skipBlank_cons rfl]
    simp only [hrest, Option.map_some]

/-- A legible value is read back, with fuel for twice its length. -/
theorem Legible.reads {v : Value} (h : v.Legible) : Reads v := by
  induction h with
  | null =>
    intro fuel rest hfuel hrest
    obtain ⟨fuel, rfl⟩ : ∃ f, fuel = f + 1 := ⟨fuel - 1, by simp [print] at hfuel; omega⟩
    rfl
  | bool b =>
    intro fuel rest hfuel hrest
    obtain ⟨fuel, rfl⟩ : ∃ f, fuel = f + 1 :=
      ⟨fuel - 1, by cases b <;> simp [print] at hfuel <;> omega⟩
    cases b <;> rfl
  | number h => exact reads_number h
  | string h =>
    intro fuel rest hfuel hrest
    obtain ⟨fuel, rfl⟩ : ∃ f, fuel = f + 1 :=
      ⟨fuel - 1, by simp [print, printString] at hfuel; omega⟩
    rw [print, printString_append, readValue, skipBlank_cons rfl]
    simp only [readString_escape, Option.map_some]
  | @array vs h ih =>
    intro fuel rest hfuel hrest
    cases vs with
    | nil =>
      obtain ⟨fuel, rfl⟩ : ∃ f, fuel = f + 1 := ⟨fuel - 1, by simp [print] at hfuel; omega⟩
      rfl
    | cons v vs =>
      rw [List.forall_mem_cons] at h ih
      simp only [print, List.length_append, List.length_cons] at hfuel
      obtain ⟨fuel, rfl⟩ : ∃ f, fuel = f + 1 := ⟨fuel - 1, by omega⟩
      have hitems := readItems_print ih.1 ih.2 fuel rest (by omega)
      obtain ⟨c, cs, hprint, hc⟩ := exists_print h.1
      rw [print, List.cons_append, List.cons_append, List.append_assoc, readValue,
        skipBlank_cons rfl]
      simp only
      rw [hprint, List.cons_append] at hitems ⊢
      rw [skipBlank_cons hc.1]
      split
      · next heq => exact absurd (List.cons.inj heq).1 hc.2.1
      · rw [hitems]
        rfl
  | @object ms hnames h ih =>
    intro fuel rest hfuel hrest
    cases ms with
    | nil =>
      obtain ⟨fuel, rfl⟩ : ∃ f, fuel = f + 1 := ⟨fuel - 1, by simp [print] at hfuel; omega⟩
      rfl
    | cons m ms =>
      obtain ⟨name, v⟩ := m
      obtain ⟨hname, hnames⟩ : (∃ os, AreOctets os ∧ name = escape os) ∧
          ∀ m ∈ ms, ∃ os, AreOctets os ∧ m.1 = escape os := List.forall_mem_cons.1 hnames
      obtain ⟨hv, hms⟩ : Reads v ∧ ∀ m ∈ ms, Reads m.2 := List.forall_mem_cons.1 ih
      simp only [print, List.length_append, List.length_cons] at hfuel
      obtain ⟨fuel, rfl⟩ : ∃ f, fuel = f + 1 := ⟨fuel - 1, by omega⟩
      have hmembers := readMembers_print hname hnames hv hms fuel rest (by omega)
      have hshape : print (.object ((name, v) :: ms)) ++ rest =
          '{' :: (printString name ++ (':' :: (v.print ++ (printMembers ms ++ rest)))) := by
        rw [print]
        simp only [List.cons_append, List.append_assoc]
      rw [hshape, readValue, skipBlank_cons rfl]
      rw [printString_append] at hmembers ⊢
      simp only
      rw [skipBlank_cons rfl]
      split
      · next heq => exact absurd (List.cons.inj heq).1 (by decide)
      · rw [hmembers]
        rfl

theorem read_print {v : Value} (h : v.Legible) : read v.print = some v := by
  have hreads := h.reads (2 * v.print.length + 2) [] (by omega) (fun c hc => by cases hc)
  rw [List.append_nil] at hreads
  rw [read, hreads]
  rfl

/-! ### Values as bytes -/

theorem areOctets_print {v : Value} (h : v.Legible) : AreOctets v.print := by
  have hname {name : List Char} (hname : ∃ os, AreOctets os ∧ name = escape os) :
      AreOctets (printString name) := by
    obtain ⟨os, hos, rfl⟩ := hname
    rw [printString, areOctets_append_iff, areOctets_cons_iff]
    exact ⟨⟨by decide, areOctets_escape hos⟩, areOctets_cons_iff.2 ⟨by decide, areOctets_nil⟩⟩
  induction h with
  | null => simp [AreOctets, print]
  | bool b => cases b <;> simp [AreOctets, print]
  | number h => exact Json.areOctets_print h
  | @string os h => exact hname ⟨os, h, rfl⟩
  | @array vs h ih =>
    have hitems (ws : List Value) (hws : ∀ w ∈ ws, AreOctets w.print) :
        AreOctets (printItems ws) := by
      induction ws with
      | nil => simp [AreOctets, printItems]
      | cons w ws ihws =>
        rw [List.forall_mem_cons] at hws
        rw [printItems, areOctets_append_iff, areOctets_cons_iff]
        exact ⟨⟨by decide, hws.1⟩, ihws hws.2⟩
    cases vs with
    | nil => simp [AreOctets, print]
    | cons v vs =>
      rw [List.forall_mem_cons] at ih
      rw [print, areOctets_append_iff, areOctets_cons_iff]
      exact ⟨⟨by decide, ih.1⟩, hitems vs ih.2⟩
  | @object ms names h ih =>
    have hmembers (ns : List (List Char × Value))
        (hnames : ∀ m ∈ ns, ∃ os, AreOctets os ∧ m.1 = escape os)
        (hns : ∀ m ∈ ns, AreOctets m.2.print) : AreOctets (printMembers ns) := by
      induction ns with
      | nil => simp [AreOctets, printMembers]
      | cons m ns ihns =>
        rw [List.forall_mem_cons] at hnames hns
        rw [printMembers, areOctets_append_iff, areOctets_append_iff, areOctets_cons_iff,
          areOctets_cons_iff]
        exact ⟨⟨⟨by decide, hname hnames.1⟩, by decide, hns.1⟩, ihns hnames.2 hns.2⟩
    cases ms with
    | nil => simp [AreOctets, print]
    | cons m ms =>
      rw [List.forall_mem_cons] at names ih
      rw [print, areOctets_append_iff, areOctets_append_iff, areOctets_cons_iff,
        areOctets_cons_iff]
      exact ⟨⟨⟨by decide, hname names.1⟩, by decide, ih.1⟩, hmembers ms names.2 ih.2⟩

/-- Bytes that a value was printed to are read back as the value. -/
theorem read_octets_ofOctets_print {v : Value} (h : v.Legible) :
    read (Text.octets (Text.ofOctets v.print)) = some v := by
  rw [octets_ofOctets (areOctets_print h), read_print h]

end Value

end CircuitCache.Json
