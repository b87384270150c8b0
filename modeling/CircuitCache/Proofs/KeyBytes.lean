import Mathlib
import CircuitCache.Key
import CircuitCache.Text.Utf8

/-!
# What the bytes of a key tell

`Key.bytes` writes a structure without a mark between the name of a kind and the number of its
addresses.  Where the number continues one name to another, as 122 continues `rz` to `rzz`, the
bytes can be cut in two ways (`Blurred`).  Structures without such an operation are told apart by
their bytes, and one such operation is enough for two structures with the same bytes.
-/

namespace CircuitCache

/-- Lists of addresses and of parameters are as long as a word can count. -/
def Shape.Addressable (s : Shape) : Prop :=
  s.signature.operands.length < UInt64.size ∧ s.arity < UInt64.size

namespace Key

/-! ## Bytes of a word -/

/-- The number with these bytes, the lowest first. -/
def value : List UInt8 → Nat
  | [] => 0
  | b :: bs => b.toNat + 256 * value bs

theorem value_append (bs cs : List UInt8) :
    value (bs ++ cs) = value bs + 256 ^ bs.length * value cs := by
  induction bs with
  | nil => simp [value]
  | cons b bs ih =>
    rw [List.cons_append, value, ih, value, List.length_cons, pow_succ]
    ring

theorem value_lt (bs : List UInt8) : value bs < 256 ^ bs.length := by
  induction bs with
  | nil => simp [value]
  | cons b bs ih =>
    have hb := b.toNat_lt
    rw [value, List.length_cons, pow_succ]
    omega

theorem value_replicate_zero (n : Nat) : value (List.replicate n 0) = 0 := by
  induction n with
  | zero => rfl
  | succ n ih => simp [List.replicate_succ, value, ih]

theorem eq_of_value_eq {bs cs : List UInt8} (hl : bs.length = cs.length)
    (h : value bs = value cs) : bs = cs := by
  induction bs generalizing cs with
  | nil => exact (List.length_eq_zero_iff.1 hl.symm).symm
  | cons b bs ih =>
    obtain ⟨c, cs, rfl⟩ := List.exists_cons_of_length_eq_add_one hl.symm
    have hb := b.toNat_lt
    have hc := c.toNat_lt
    simp only [value] at h
    rw [UInt8.toNat_inj.1 (by omega : b.toNat = c.toNat), ih (by simpa using hl) (by omega)]

theorem length_littleEndian (w : UInt64) : (littleEndian w).length = 8 := rfl

theorem value_littleEndian (w : UInt64) : value (littleEndian w) = w.toNat := by
  have hw := w.toNat_lt
  simp only [littleEndian, List.map_cons, List.map_nil, value, UInt64.toNat_toUInt8,
    UInt64.toNat_shiftRight, Nat.shiftRight_eq_div_pow, UInt64.toNat_zero, Nat.zero_mod, pow_zero,
    Nat.div_one, Nat.reducePow, UInt64.reduceToNat, Nat.reduceMod, mul_zero, add_zero]
  omega

theorem littleEndian_injective : Function.Injective littleEndian := by
  intro v w h
  rw [← UInt64.toNat_inj, ← value_littleEndian, h, value_littleEndian]

/-- The bytes of a number that a word holds. -/
theorem littleEndian_ofNat_value {bs : List UInt8} (h : bs.length = 8) :
    littleEndian (UInt64.ofNat (value bs)) = bs := by
  have hlt := value_lt bs
  rw [h] at hlt
  refine eq_of_value_eq (by rw [length_littleEndian, h]) ?_
  rw [value_littleEndian, UInt64.toNat_ofNat_of_lt' hlt]

theorem length_flatMap_littleEndian (ws : List UInt64) :
    (ws.flatMap littleEndian).length = 8 * ws.length := by
  induction ws with
  | nil => rfl
  | cons w ws ih =>
    rw [List.flatMap_cons, List.length_append, ih, length_littleEndian, List.length_cons]
    omega

theorem flatMap_littleEndian_injective :
    Function.Injective fun ws : List UInt64 => ws.flatMap littleEndian := by
  intro vs ws h
  have hl : vs.length = ws.length := by
    have := congrArg List.length h
    simp only [length_flatMap_littleEndian] at this
    omega
  induction vs generalizing ws with
  | nil => exact (List.length_eq_zero_iff.1 hl.symm).symm
  | cons v vs ih =>
    obtain ⟨w, ws, rfl⟩ := List.exists_cons_of_length_eq_add_one hl.symm
    obtain ⟨hv, hvs⟩ := List.append_inj h rfl
    rw [littleEndian_injective hv, ih hvs (by simpa using hl)]

/-- Any bytes are those of words, eight to a word. -/
theorem exists_flatMap_littleEndian_eq (n : Nat) (bs : List UInt8) (h : bs.length = 8 * n) :
    ∃ ws : List UInt64, ws.length = n ∧ ws.flatMap littleEndian = bs := by
  induction n generalizing bs with
  | zero => exact ⟨[], rfl, (List.length_eq_zero_iff.1 h).symm⟩
  | succ n ih =>
    obtain ⟨ws, hn, hws⟩ := ih (bs.drop 8) (by rw [List.length_drop]; omega)
    refine ⟨UInt64.ofNat (value (bs.take 8)) :: ws, by rw [List.length_cons, hn], ?_⟩
    rw [List.flatMap_cons, hws, littleEndian_ofNat_value (by rw [List.length_take]; omega),
      List.take_append_drop]

theorem prefix_littleEndian_iff {suffix : List UInt8} {count : Nat} (hcount : count < UInt64.size)
    (hlen : suffix.length ≤ 8) :
    suffix <+: littleEndian (UInt64.ofNat count) ↔ count % 256 ^ suffix.length = value suffix := by
  have hvalue : value (littleEndian (UInt64.ofNat count)) = count := by
    rw [value_littleEndian, UInt64.toNat_ofNat_of_lt' hcount]
  have hmod (bs cs : List UInt8) : value (bs ++ cs) % 256 ^ bs.length = value bs := by
    rw [value_append, Nat.add_mul_mod_self_left, Nat.mod_eq_of_lt (value_lt bs)]
  constructor
  · rintro ⟨tail, h⟩
    rw [← hvalue, ← h, hmod]
  · intro h
    have htake : ((littleEndian (UInt64.ofNat count)).take suffix.length).length =
        suffix.length := by
      rw [List.length_take, length_littleEndian, Nat.min_eq_left hlen]
    have := hmod ((littleEndian (UInt64.ofNat count)).take suffix.length)
      ((littleEndian (UInt64.ofNat count)).drop suffix.length)
    rw [List.take_append_drop, hvalue, htake, h] at this
    rw [eq_of_value_eq htake.symm this]
    exact List.take_prefix _ _

/-! ## Names -/

/-- The bytes of a tag in the input of the digest: its name, with nothing that ends it. -/
def nameBytes (tag : Tag) : List UInt8 := Text.utf8 tag.name

theorem nameBytes_injective : Function.Injective nameBytes := by
  intro a b h
  have hname : some a.name = some b.name := by
    rw [← Text.ofUtf8?_utf8, ← Text.ofUtf8?_utf8]
    exact congrArg Text.ofUtf8? h
  have htag := congrArg Tag.ofName? (Option.some.inj hname)
  rwa [Tag.ofName?_name, Tag.ofName?_name, Option.some.injEq] at htag

theorem length_nameBytes_le (tag : Tag) : (nameBytes tag).length ≤ 8 := by
  have key : ∀ a ∈ Tag.all, (nameBytes a).length ≤ 8 := by decide +kernel
  exact key tag tag.mem_all

/-- Names are of letters and digits. -/
theorem le_of_mem_nameBytes {tag : Tag} {b : UInt8} (h : b ∈ nameBytes tag) : 48 ≤ b.toNat := by
  have key : ∀ a ∈ Tag.all, (nameBytes a).all (fun b => decide (48 ≤ b.toNat)) := by
    decide +kernel
  exact of_decide_eq_true (List.all_eq_true.1 (key tag tag.mem_all) b h)

/-- The kinds whose names have longer ones, with what these have besides. -/
def continuations : List (Tag × Tag × List UInt8) :=
  [(.rz, .rzz, [0x7a]), (.s, .sdg, [0x64, 0x67]), (.t, .tdg, [0x64, 0x67]),
    (.s, .swap, [0x77, 0x61, 0x70]), (.s, .snapshot, [0x6e, 0x61, 0x70, 0x73, 0x68, 0x6f, 0x74])]

theorem mem_continuations_iff {tag other : Tag} {suffix : List UInt8} :
    (tag, other, suffix) ∈ continuations ↔
      suffix ≠ [] ∧ nameBytes tag ++ suffix = nameBytes other := by
  constructor
  · have key : ∀ c ∈ continuations, c.2.2 ≠ [] ∧ nameBytes c.1 ++ c.2.2 = nameBytes c.2.1 := by
      decide +kernel
    exact key (tag, other, suffix)
  · rintro ⟨hne, h⟩
    have key : ∀ a ∈ Tag.all, ∀ b ∈ Tag.all, nameBytes a <+: nameBytes b →
        (nameBytes b).drop (nameBytes a).length ≠ [] →
          (a, b, (nameBytes b).drop (nameBytes a).length) ∈ continuations := by
      decide +kernel
    have := key tag tag.mem_all other other.mem_all ⟨suffix, h⟩
    rw [← h, List.drop_left] at this
    exact this hne

/-! ## Blurred operations -/

/-- The name of a kind and the number of its addresses begin like the longer name of another. -/
def Blurred (tag : Tag) (count : Nat) : Prop :=
  ∃ other : Tag, (nameBytes tag).length < (nameBytes other).length ∧
    nameBytes other <+: nameBytes tag ++ littleEndian (UInt64.ofNat count)

theorem blurred_iff_exists_continuation {tag : Tag} {count : Nat} :
    Blurred tag count ↔ ∃ other suffix, (tag, other, suffix) ∈ continuations ∧
      suffix <+: littleEndian (UInt64.ofNat count) := by
  constructor
  · rintro ⟨other, hlt, hpre⟩
    obtain ⟨suffix, hsuffix⟩ := List.prefix_of_prefix_length_le (List.prefix_append _ _) hpre hlt.le
    refine ⟨other, suffix, mem_continuations_iff.2 ⟨?_, hsuffix⟩, ?_⟩
    · rintro rfl
      rw [← hsuffix, List.append_nil] at hlt
      exact absurd hlt (lt_irrefl _)
    · rwa [← hsuffix, List.prefix_append_right_inj] at hpre
  · rintro ⟨other, suffix, hmem, hpre⟩
    obtain ⟨hne, hsuffix⟩ := mem_continuations_iff.1 hmem
    refine ⟨other, ?_, ?_⟩
    · rw [← hsuffix, List.length_append]
      exact Nat.lt_add_of_pos_right (List.length_pos_iff.2 hne)
    · rwa [← hsuffix, List.prefix_append_right_inj]

/-- The blurred operations one by one: what follows the name of the kind goes on like that of
`rzz`, of `sdg` or `tdg`, or of `swap` or `snapshot`. -/
theorem blurred_iff {tag : Tag} {count : Nat} (hcount : count < UInt64.size) :
    Blurred tag count ↔ tag = .rz ∧ count % 256 = 122 ∨
      (tag = .s ∨ tag = .t) ∧ count % 256 ^ 2 = 0x6764 ∨
      tag = .s ∧ (count % 256 ^ 3 = 0x706177 ∨ count % 256 ^ 7 = 0x746f687370616e) := by
  have key : ∀ c ∈ continuations,
      (c.2.2 <+: littleEndian (UInt64.ofNat count) ↔ count % 256 ^ c.2.2.length = value c.2.2) :=
    fun c hc => prefix_littleEndian_iff hcount (by revert c; decide)
  rw [blurred_iff_exists_continuation]
  simp only [continuations, List.forall_mem_cons, List.not_mem_nil, false_imp_iff, implies_true,
    and_true, List.length_cons, List.length_nil] at key
  obtain ⟨hrz, hs, ht, hswap, hsnapshot⟩ := key
  constructor
  · rintro ⟨other, suffix, hmem, hpre⟩
    simp only [continuations, List.mem_cons, Prod.mk.injEq, List.not_mem_nil, or_false] at hmem
    rcases hmem with ⟨rfl, -, rfl⟩ | ⟨rfl, -, rfl⟩ | ⟨rfl, -, rfl⟩ | ⟨rfl, -, rfl⟩ | ⟨rfl, -, rfl⟩
    · exact .inl ⟨rfl, hrz.1 hpre⟩
    · exact .inr (.inl ⟨.inl rfl, hs.1 hpre⟩)
    · exact .inr (.inl ⟨.inr rfl, ht.1 hpre⟩)
    · exact .inr (.inr ⟨rfl, .inl (hswap.1 hpre)⟩)
    · exact .inr (.inr ⟨rfl, .inr (hsnapshot.1 hpre)⟩)
  · rintro (⟨rfl, h⟩ | ⟨rfl | rfl, h⟩ | ⟨rfl, h | h⟩)
    · exact ⟨.rzz, _, by decide, hrz.2 h⟩
    · exact ⟨.sdg, _, by decide, hs.2 h⟩
    · exact ⟨.tdg, _, by decide, ht.2 h⟩
    · exact ⟨.swap, _, by decide, hswap.2 h⟩
    · exact ⟨.snapshot, _, by decide, hsnapshot.2 h⟩

/-- No operation about fewer than 122 addresses is blurred. -/
theorem not_blurred_of_lt {tag : Tag} {count : Nat} (h : count < 122) : ¬ Blurred tag count := by
  rw [blurred_iff (by simp only [UInt64.size]; omega)]
  omega

/-! ## Telling structures apart -/

theorem shapeBytes_eq (s : Shape) :
    shapeBytes s = nameBytes s.signature.tag ++
      (littleEndian (UInt64.ofNat s.signature.operands.length) ++
        (s.signature.operands.flatMap littleEndian ++
          (littleEndian (UInt64.ofNat s.arity) ++ [0x3B]))) := by
  simp [shapeBytes, nameBytes, Text.utf8]

/-- A name that stands where an operation begins is no longer than the name of its kind, unless
the operation is blurred. -/
theorem length_le_of_not_blurred {tag other : Tag} {count : Nat} (h : ¬ Blurred tag count)
    {xs ys : List UInt8}
    (e : nameBytes other ++ xs = nameBytes tag ++ (littleEndian (UInt64.ofNat count) ++ ys)) :
    (nameBytes other).length ≤ (nameBytes tag).length := by
  by_contra hlt
  have hother := length_nameBytes_le other
  have hpre : nameBytes other <+: nameBytes tag ++ littleEndian (UInt64.ofNat count) ++ ys := by
    rw [List.append_assoc, ← e]
    exact List.prefix_append _ _
  refine h ⟨other, not_le.1 hlt, List.prefix_of_prefix_length_le hpre (List.prefix_append _ _) ?_⟩
  rw [List.length_append, length_littleEndian]
  omega

theorem shapeBytes_append_inj {s t : Shape} (hs : s.Addressable) (ht : t.Addressable)
    (hbs : ¬ Blurred s.signature.tag s.signature.operands.length)
    (hbt : ¬ Blurred t.signature.tag t.signature.operands.length) {xs ys : List UInt8}
    (h : shapeBytes s ++ xs = shapeBytes t ++ ys) : s = t ∧ xs = ys := by
  obtain ⟨⟨a, ps⟩, m⟩ := s
  obtain ⟨⟨b, qs⟩, n⟩ := t
  simp only [shapeBytes_eq, List.append_assoc] at h
  -- Neither name runs on into the other's count, so both end at the same place; every part after
  -- them has a length that is known by then.
  have hab : (nameBytes a).length = (nameBytes b).length :=
    le_antisymm (length_le_of_not_blurred hbt h) (length_le_of_not_blurred hbs h.symm)
  obtain ⟨hname, hafter⟩ := List.append_inj h hab
  obtain ⟨hcount, hoperands⟩ := List.append_inj hafter rfl
  have hlen : ps.length = qs.length := by
    have := congrArg UInt64.toNat (littleEndian_injective hcount)
    rwa [UInt64.toNat_ofNat_of_lt' hs.1, UInt64.toNat_ofNat_of_lt' ht.1] at this
  obtain ⟨hops, hrest⟩ :=
    List.append_inj hoperands (by simp only [length_flatMap_littleEndian, hlen])
  obtain ⟨harity, hend⟩ := List.append_inj hrest rfl
  have hmn : m = n := by
    have := congrArg UInt64.toNat (littleEndian_injective harity)
    rwa [UInt64.toNat_ofNat_of_lt' hs.2, UInt64.toNat_ofNat_of_lt' ht.2] at this
  rw [nameBytes_injective hname, flatMap_littleEndian_injective hops, hmn]
  exact ⟨rfl, (List.append_inj hend rfl).2⟩

theorem bytes_cons (s : Shape) (ss : List Shape) : bytes (s :: ss) = shapeBytes s ++ bytes ss :=
  List.flatMap_cons ..

theorem length_shapeBytes (s : Shape) :
    (shapeBytes s).length =
      (nameBytes s.signature.tag).length + 17 + 8 * s.signature.operands.length := by
  simp only [shapeBytes_eq, List.length_append, length_littleEndian, length_flatMap_littleEndian,
    List.length_singleton]
  omega

theorem bytes_cons_ne_nil (s : Shape) (ss : List Shape) : bytes (s :: ss) ≠ bytes [] := by
  intro h
  have := congrArg List.length h
  rw [bytes_cons, List.length_append, length_shapeBytes] at this
  simp only [bytes, List.flatMap_nil, List.length_nil] at this
  omega

/-- Without blurred operations the bytes tell the structure. -/
theorem eq_of_bytes_eq {xs ys : List Shape}
    (hx : ∀ s ∈ xs, s.Addressable ∧ ¬ Blurred s.signature.tag s.signature.operands.length)
    (hy : ∀ s ∈ ys, s.Addressable ∧ ¬ Blurred s.signature.tag s.signature.operands.length)
    (h : bytes xs = bytes ys) : xs = ys := by
  induction xs generalizing ys with
  | nil =>
    cases ys with
    | nil => rfl
    | cons t ys => exact absurd h.symm (bytes_cons_ne_nil t ys)
  | cons s xs ih =>
    cases ys with
    | nil => exact absurd h (bytes_cons_ne_nil s xs)
    | cons t ys =>
      rw [List.forall_mem_cons] at hx hy
      rw [bytes_cons, bytes_cons] at h
      obtain ⟨hst, hrest⟩ := shapeBytes_append_inj hx.1.1 hy.1.1 hx.1.2 hy.1.2 h
      rw [hst, ih hx.2 hy.2 hrest]

/-! ## Structures with the same bytes -/

/-- A longer name has no longer one itself. -/
theorem not_blurred_of_mem_continuations {tag other : Tag} {suffix : List UInt8}
    (h : (tag, other, suffix) ∈ continuations) (count : Nat) : ¬ Blurred other count := by
  have key : ∀ c ∈ continuations, ∀ d ∈ continuations, c.2.1 ≠ d.1 := by decide
  rw [blurred_iff_exists_continuation]
  rintro ⟨third, rest, hmem, -⟩
  exact key _ h _ hmem rfl

theorem not_blurred_snapshot (count : Nat) : ¬ Blurred .snapshot count := by
  rw [blurred_iff_exists_continuation]
  rintro ⟨other, suffix, hmem, -⟩
  simp [continuations] at hmem

/-- A marker with `n` addresses, to fill up bytes. -/
def filler (n : Nat) : Shape := ⟨⟨.snapshot, List.replicate n 0⟩, 0⟩

theorem filler_plain {n : Nat} (h : n < UInt64.size) :
    (filler n).Addressable ∧
      ¬ Blurred (filler n).signature.tag (filler n).signature.operands.length :=
  ⟨⟨by simpa [filler] using h, Nat.zero_lt_succ _⟩, not_blurred_snapshot _⟩

theorem length_shapeBytes_filler (n : Nat) : (shapeBytes (filler n)).length = 25 + 8 * n := by
  rw [length_shapeBytes, filler, List.length_replicate]
  rfl

theorem length_bytes_replicate_filler (k : Nat) :
    (bytes (List.replicate k (filler 0))).length = 25 * k := by
  induction k with
  | zero => rfl
  | succ k ih =>
    rw [List.replicate_succ, bytes_cons, List.length_append, ih, length_shapeBytes_filler]
    omega

/-- The bytes of a count that begin with the end of a name are, past it, those of a smaller
count. -/
theorem exists_count_of_suffix {suffix tail : List UInt8} {count : Nat}
    (hcount : count < UInt64.size) (h : suffix ++ tail = littleEndian (UInt64.ofNat count))
    (hne : suffix ≠ []) (hname : ∀ b ∈ suffix, 48 ≤ b.toNat) :
    ∃ m, m + 48 ≤ count ∧ suffix ++ littleEndian (UInt64.ofNat m) =
      littleEndian (UInt64.ofNat count) ++ List.replicate suffix.length 0 := by
  have hlen := congrArg List.length h
  rw [List.length_append, length_littleEndian] at hlen
  have hvalue : value suffix + 256 ^ suffix.length * value tail = count := by
    rw [← value_append, h, value_littleEndian, UInt64.toNat_ofNat_of_lt' hcount]
  have hzeros : value (tail ++ List.replicate suffix.length 0) = value tail := by
    rw [value_append, value_replicate_zero, Nat.mul_zero, Nat.add_zero]
  refine ⟨value tail, ?_, ?_⟩
  · have hfirst : 48 ≤ value suffix := by
      obtain ⟨b, bs, rfl⟩ := List.exists_cons_of_ne_nil hne
      have := hname b List.mem_cons_self
      rw [value]
      omega
    have hpow : 1 * value tail ≤ 256 ^ suffix.length * value tail :=
      Nat.mul_le_mul_right _ (Nat.one_le_pow _ _ (by omega))
    omega
  · have hbytes : (tail ++ List.replicate suffix.length 0).length = 8 := by
      rw [List.length_append, List.length_replicate]
      omega
    rw [← hzeros, littleEndian_ofNat_value hbytes, ← List.append_assoc, h]

/-- What follows the name and the count in the bytes of a blurred operation can be made to read as
the rest of an operation of the longer name, and of markers after it that fill the bytes up. -/
theorem exists_bytes_eq_of_blurred {tag : Tag} {count : Nat} (hcount : count < UInt64.size)
    (h : Blurred tag count) : ∃ (ops : List Address) (s : Shape) (ys : List Shape),
      ops.length = count ∧ s.signature.tag ≠ tag ∧
      (∀ t ∈ s :: ys, t.Addressable ∧ ¬ Blurred t.signature.tag t.signature.operands.length) ∧
      bytes [⟨⟨tag, ops⟩, 0⟩] = bytes (s :: ys) := by
  obtain ⟨other, suffix, hmem, tail, htail⟩ := blurred_iff_exists_continuation.1 h
  obtain ⟨hnonempty, hsuffix⟩ := mem_continuations_iff.1 hmem
  have hother := not_blurred_of_mem_continuations hmem
  have hne : other ≠ tag := by
    rintro rfl
    exact hother _ h
  have hlen := congrArg List.length hsuffix
  rw [List.length_append] at hlen
  have htagPos : 0 < (nameBytes tag).length := by cases tag <;> decide
  have hotherLe := length_nameBytes_le other
  obtain ⟨m, hm, hsplit⟩ := exists_count_of_suffix hcount htail hnonempty
    fun b hb => le_of_mem_nameBytes
      (show b ∈ nameBytes other from hsuffix ▸ List.mem_append_right _ hb)
  let k := count + 3 * suffix.length - 25 - m
  -- All bytes between the count and the last nine, which end an operation without parameters.
  let mid := List.replicate suffix.length 0 ++
    ((List.replicate m (0 : Address)).flatMap littleEndian ++
      (littleEndian (UInt64.ofNat 0) ++ ([0x3B] ++
        (bytes (List.replicate (7 - suffix.length) (filler 0)) ++
          (nameBytes .snapshot ++ (littleEndian (UInt64.ofNat k) ++
            (List.replicate k (0 : Address)).flatMap littleEndian))))))
  have hmid : mid.length = 8 * count := by
    have hsnapshot : (nameBytes .snapshot).length = 8 := rfl
    simp only [mid, List.length_append, List.length_replicate, length_flatMap_littleEndian,
      length_littleEndian, length_bytes_replicate_filler, hsnapshot, List.length_singleton]
    omega
  obtain ⟨ops, hops, hbytes⟩ := exists_flatMap_littleEndian_eq count mid hmid
  refine ⟨ops, ⟨⟨other, List.replicate m 0⟩, 0⟩,
    List.replicate (7 - suffix.length) (filler 0) ++ [filler k], hops, hne, ?_, ?_⟩
  · intro t ht
    rw [List.mem_cons, List.mem_append, List.mem_singleton] at ht
    rcases ht with rfl | ht | rfl
    · exact ⟨⟨by simp only [List.length_replicate]; omega, Nat.zero_lt_succ _⟩, hother _⟩
    · rw [List.eq_of_mem_replicate ht]
      exact filler_plain (by decide)
    · exact filler_plain (by omega)
  · have hys : bytes (List.replicate (7 - suffix.length) (filler 0) ++ [filler k]) =
        bytes (List.replicate (7 - suffix.length) (filler 0)) ++ shapeBytes (filler k) := by
      simp [bytes]
    have hfirst (zs : List UInt8) : suffix ++ (littleEndian (UInt64.ofNat m) ++ zs) =
        littleEndian (UInt64.ofNat count) ++ (List.replicate suffix.length 0 ++ zs) := by
      rw [← List.append_assoc, hsplit, List.append_assoc]
    rw [bytes_cons, bytes_cons, hys]
    simp only [shapeBytes_eq, hops, hbytes, mid, filler, List.length_replicate, ← hsuffix,
      List.append_assoc, hfirst]
    rw [show bytes [] = [] from rfl, List.append_nil]

/-! ## Programs -/

/-- Every structure is that of a program. -/
theorem exists_program_shapes_eq (ss : List Shape) : ∃ p : Program, p.shapes = ss := by
  refine ⟨.ofOperations "" (ss.map fun s =>
    ⟨s.signature.tag, s.signature.operands, List.replicate s.arity (.int 0)⟩), ?_⟩
  rw [Program.shapes, Program.unrolled_ofOperations, List.map_map]
  refine (List.map_congr_left fun s _ => ?_).trans (List.map_id ss)
  simp [Operation.shape, Operation.signature]

/-- Programs are told apart by the bytes of their keys as long as none of their operations is
blurred, and one kind of blurred operation is enough for two programs of different structure with
the same bytes. -/
theorem bytes_determine_shapes_iff_not_blurred (tag : Tag) (count : Nat)
    (hcount : count < UInt64.size) :
    (∀ p q : Program,
      (∀ s ∈ p.shapes ++ q.shapes, s.Addressable ∧
        (Blurred s.signature.tag s.signature.operands.length →
          s.signature.tag = tag ∧ s.signature.operands.length = count)) →
      bytes p.shapes = bytes q.shapes → p.shapes = q.shapes) ↔ ¬ Blurred tag count := by
  constructor
  · intro hinj hblurred
    obtain ⟨ops, s, ys, hops, htag, hplain, hbytes⟩ := exists_bytes_eq_of_blurred hcount hblurred
    obtain ⟨p, hp⟩ := exists_program_shapes_eq [⟨⟨tag, ops⟩, 0⟩]
    obtain ⟨q, hq⟩ := exists_program_shapes_eq (s :: ys)
    have heq := hinj p q ?_ (by rw [hp, hq, hbytes])
    · rw [hp, hq, List.cons.injEq] at heq
      exact htag (by rw [← heq.1])
    · intro t ht
      rw [hp, hq, List.singleton_append, List.mem_cons] at ht
      rcases ht with rfl | ht
      · exact ⟨⟨by rw [hops]; exact hcount, Nat.zero_lt_succ _⟩, fun _ => ⟨rfl, hops⟩⟩
      · exact ⟨(hplain t ht).1, fun hb => absurd hb (hplain t ht).2⟩
  · intro hclear p q hforms h
    have plain : ∀ s ∈ p.shapes ++ q.shapes,
        s.Addressable ∧ ¬ Blurred s.signature.tag s.signature.operands.length := by
      intro s hs
      refine ⟨(hforms s hs).1, fun hb => hclear ?_⟩
      obtain ⟨htag, hlen⟩ := (hforms s hs).2 hb
      rwa [htag, hlen] at hb
    exact eq_of_bytes_eq (fun s hs => plain s (List.mem_append_left _ hs))
      (fun s hs => plain s (List.mem_append_right _ hs)) h

/-- The general law at rotations about one address, which nothing blurs. -/
theorem bytes_determine_shapes_of_plain_rotation : 1 < UInt64.size ∧
    ((∀ p q : Program,
      (∀ s ∈ p.shapes ++ q.shapes, s.Addressable ∧
        (Blurred s.signature.tag s.signature.operands.length →
          s.signature.tag = .rz ∧ s.signature.operands.length = 1)) →
      bytes p.shapes = bytes q.shapes → p.shapes = q.shapes) ↔ ¬ Blurred .rz 1) :=
  ⟨by decide, bytes_determine_shapes_iff_not_blurred .rz 1 (by decide)⟩

/-- A rotation about 122 addresses, whose key also stands for three operations without any. -/
theorem wide_rotation_shares_bytes :
    let wide := Program.ofOperations "wide"
      [⟨.rz, [0, 0x6764733b00, 0, 0x78633b0000000000, 117] ++ List.replicate 117 0, []⟩]
    let other := Program.ofOperations "other"
      [⟨.rzz, [], []⟩, ⟨.sdg, [], []⟩, ⟨.cx, List.replicate 117 0, []⟩]
    bytes wide.shapes = bytes other.shapes ∧ wide.shapes ≠ other.shapes := by
  refine ⟨?_, ?_⟩
  · decide +kernel
  · decide

end Key

end CircuitCache
