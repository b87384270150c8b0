import Mathlib
import CircuitCache.Proofs.Nesting

/-!
# Places and addresses

Registers with distinct names lie one after the other, so each address below their total size is
that of exactly one place (`bijOn_addressOf`).  No sum on the way to an address is larger than the
total size, so none has to be checked (`resolveChecked_eq`), and a place keeps its address when more
registers are declared.
-/

namespace CircuitCache

/-- The place is in one of the registers. -/
def IsPlace (registers : List Register) (place : String × ℕ) : Prop :=
  ∃ r ∈ registers, r.name = place.1 ∧ place.2 < r.size

variable {registers : List Register} {r : Register} {place place' : String × ℕ} {n : ℕ}

/-! ## One register more in front -/

theorem positionOf_cons_self (h : r.name = place.1) (registers : List Register) :
    positionOf (r :: registers) place = place.2 := by
  rw [positionOf, ← h, offsetOf_cons_self, Nat.zero_add]

theorem positionOf_cons_of_ne (h : r.name ≠ place.1) (registers : List Register) :
    positionOf (r :: registers) place = r.size + positionOf registers place := by
  rw [positionOf, positionOf, offsetOf_cons_of_ne h, Nat.add_assoc]

/-- A place of registers with distinct names is in the first one, or in a later one and then the
first one has another name. -/
theorem isPlace_cons_iff (hdistinct : ((r :: registers).map Register.name).Nodup) :
    IsPlace (r :: registers) place ↔ (r.name = place.1 ∧ place.2 < r.size) ∨
      (r.name ≠ place.1 ∧ IsPlace registers place) := by
  rw [IsPlace, List.exists_mem_cons_iff]
  refine or_congr_right ⟨fun h => ⟨?_, h⟩, And.right⟩
  rintro hname
  obtain ⟨s, hs, hsname, -⟩ := h
  have hnotMem := (List.nodup_cons.1 hdistinct).1
  exact hnotMem (List.mem_map.2 ⟨s, hs, hsname.trans hname.symm⟩)

/-! ## Positions -/

theorem positionOf_lt (hdistinct : (registers.map Register.name).Nodup)
    (h : IsPlace registers place) : positionOf registers place < totalSize registers := by
  induction registers with
  | nil => simp [IsPlace] at h
  | cons r registers ih =>
    rw [totalSize_cons]
    obtain ⟨hname, hlt⟩ | ⟨hname, hplace⟩ := (isPlace_cons_iff hdistinct).1 h
    · rw [positionOf_cons_self hname]
      omega
    · have hrest := ih (List.nodup_cons.1 hdistinct).2 hplace
      rw [positionOf_cons_of_ne hname]
      omega

theorem positionOf_injOn (hdistinct : (registers.map Register.name).Nodup)
    (h : IsPlace registers place) (h' : IsPlace registers place')
    (hsame : positionOf registers place = positionOf registers place') : place = place' := by
  induction registers with
  | nil => simp [IsPlace] at h
  | cons r registers ih =>
    obtain ⟨hname, hlt⟩ | ⟨hname, hplace⟩ := (isPlace_cons_iff hdistinct).1 h <;>
      obtain ⟨hname', hlt'⟩ | ⟨hname', hplace'⟩ := (isPlace_cons_iff hdistinct).1 h'
    · rw [positionOf_cons_self hname, positionOf_cons_self hname'] at hsame
      exact Prod.ext (hname.symm.trans hname') hsame
    · rw [positionOf_cons_self hname, positionOf_cons_of_ne hname'] at hsame
      omega
    · rw [positionOf_cons_of_ne hname, positionOf_cons_self hname'] at hsame
      omega
    · rw [positionOf_cons_of_ne hname, positionOf_cons_of_ne hname'] at hsame
      exact ih (List.nodup_cons.1 hdistinct).2 hplace hplace' (Nat.add_left_cancel hsame)

theorem exists_place_of_lt (hdistinct : (registers.map Register.name).Nodup)
    (h : n < totalSize registers) :
    ∃ place, IsPlace registers place ∧ positionOf registers place = n := by
  induction registers generalizing n with
  | nil => simp [totalSize] at h
  | cons r registers ih =>
    rw [totalSize_cons] at h
    obtain hlt | hge := lt_or_ge n r.size
    · refine ⟨(r.name, n), (isPlace_cons_iff hdistinct).2 (.inl ⟨rfl, hlt⟩), ?_⟩
      exact positionOf_cons_self rfl registers
    · obtain ⟨place, hplace, hposition⟩ :=
        ih (List.nodup_cons.1 hdistinct).2 (n := n - r.size) (by omega)
      have hname : r.name ≠ place.1 := by
        obtain ⟨s, hs, hsname, -⟩ := hplace
        exact fun hname => (List.nodup_cons.1 hdistinct).1
          (List.mem_map.2 ⟨s, hs, hsname.trans hname.symm⟩)
      refine ⟨place, (isPlace_cons_iff hdistinct).2 (.inr ⟨hname, hplace⟩), ?_⟩
      rw [positionOf_cons_of_ne hname, hposition]
      omega

/-! ## Addresses -/

theorem toNat_addressOf (hdistinct : (registers.map Register.name).Nodup)
    (htotal : totalSize registers < 2 ^ 64) (h : IsPlace registers place) :
    (addressOf registers place).toNat = positionOf registers place := by
  have hlt := positionOf_lt hdistinct h
  rw [addressOf, UInt64.toNat_ofNat', Nat.mod_eq_of_lt (by omega)]

/-- The addresses below the total size are those of the places, each of one place. -/
theorem bijOn_addressOf (hdistinct : (registers.map Register.name).Nodup)
    (htotal : totalSize registers < 2 ^ 64) :
    Set.BijOn (addressOf registers) {place | IsPlace registers place}
      {a | a.toNat < totalSize registers} := by
  refine ⟨fun place h => ?_, fun place h place' h' hsame => ?_, fun a ha => ?_⟩
  · show (addressOf registers place).toNat < totalSize registers
    rw [toNat_addressOf hdistinct htotal h]
    exact positionOf_lt hdistinct h
  · have hposition := congrArg UInt64.toNat hsame
    rw [toNat_addressOf hdistinct htotal h, toNat_addressOf hdistinct htotal h'] at hposition
    exact positionOf_injOn hdistinct h h' hposition
  · obtain ⟨place, hplace, hposition⟩ := exists_place_of_lt hdistinct ha
    refine ⟨place, hplace, ?_⟩
    rw [addressOf, hposition, UInt64.ofNat_toNat]

/-! ## Checked sums -/

/-- The sum, or nothing where a word cannot hold it. -/
def checkedAdd (m n : ℕ) : Option ℕ := if m + n < 2 ^ 64 then some (m + n) else none

theorem checkedAdd_eq {m n : ℕ} (h : m + n < 2 ^ 64) : checkedAdd m n = some (m + n) := if_pos h

namespace Builder

/-- The search for a register where every sum is checked. -/
def findChecked (name : String) : (offset : ℕ) → List Register → Option (Option (Register × ℕ))
  | _, [] => some none
  | offset, r :: rest =>
    if r.name = name then some (some (r, offset))
    else (checkedAdd offset r.size).bind fun sum => findChecked name sum rest

/-- The resolution of a place where every sum is checked.  There is one to check for the address in
a quantum register that is found, and none in the other cases. -/
def resolveChecked (b : Builder) (name : String) (index : ℕ) :
    Option (Except CircuitError (Option Address)) :=
  (findChecked name 0 b.registers).bind fun
    | some (r, offset) =>
      if index < r.size then
        (checkedAdd offset index).map fun position => .ok (some (UInt64.ofNat position))
      else some (b.resolve name index)
    | none => some (b.resolve name index)

variable {b : Builder} {offset position : ℕ} {name : String}

theorem findChecked_eq (h : offset + totalSize registers < 2 ^ 64) :
    findChecked name offset registers = some (find? name offset registers) := by
  induction registers generalizing offset with
  | nil => rfl
  | cons r registers ih =>
    rw [totalSize_cons] at h
    have hsum : checkedAdd offset r.size = some (offset + r.size) := checkedAdd_eq (by omega)
    have hrest : findChecked name (offset + r.size) registers =
        some (find? name (offset + r.size) registers) := ih (by omega)
    rw [findChecked, find?, hsum, Option.bind_some, hrest]
    split_ifs <;> rfl

/-- The register that is found ends within the total size. -/
theorem add_size_le_of_find? (h : find? name offset registers = some (r, position)) :
    position + r.size ≤ offset + totalSize registers := by
  induction registers generalizing offset with
  | nil => simp [find?] at h
  | cons s registers ih =>
    rw [totalSize_cons]
    rw [find?] at h
    split_ifs at h with hname
    · obtain ⟨rfl, rfl⟩ := Prod.mk.inj (Option.some.inj h)
      omega
    · have hle := ih h
      omega

/-- Where the total size is a word, no sum is too large for one. -/
theorem resolveChecked_eq (h : totalSize b.registers < 2 ^ 64) (name : String) (index : ℕ) :
    b.resolveChecked name index = some (b.resolve name index) := by
  rw [resolveChecked, findChecked_eq (by omega), Option.bind_some]
  cases hfind : find? name 0 b.registers with
  | none => rfl
  | some found =>
    obtain ⟨r, offset⟩ := found
    dsimp only
    split_ifs with hindex
    · have hle := add_size_le_of_find? hfind
      rw [checkedAdd_eq (by omega), resolve, hfind]
      simp [hindex]
    · rfl

end Builder

/-! ## Good calls -/

variable {calls before rest : List Call}

theorem AllGood.distinct_quantumOf (h : AllGood calls) :
    ((quantumOf calls).map Register.name).Nodup := by
  have hdistinct := h.distinct
  rw [declaredBy, List.map_append] at hdistinct
  exact (List.nodup_append.1 hdistinct).1

theorem AllGood.not_isStray (h : AllGood calls) (hplace : IsPlace (quantumOf calls) place) :
    ¬IsStray (declaredBy calls) place := by
  obtain ⟨r, hr, hname, hlt⟩ := hplace
  have hmem : r ∈ declaredBy calls := List.mem_append_left _ hr
  rintro (hnone | ⟨s, hs, hsname, hge⟩)
  · exact hnone r hmem hname
  · obtain rfl := eq_of_name_eq h.distinct hmem hs (hname.trans hsname.symm)
    omega

/-- A place of the quantum registers so far is resolved to its address among all of them. -/
theorem AllGood.resolve_after (h : AllGood (before ++ rest)) (name : String)
    (hplace : IsPlace (quantumOf before) place) :
    (Builder.after name before).resolve place.1 place.2 =
      .ok (some (addressOf (quantumOf (before ++ rest)) place)) := by
  have hbefore := h.of_append
  have hquantum : ∃ r ∈ quantumOf before, r.name = place.1 := by
    obtain ⟨r, hr, hname, -⟩ := hplace
    exact ⟨r, hr, hname⟩
  have hstray := hbefore.not_isStray hplace
  rw [← hbefore.declared_after name] at hstray
  rw [Builder.resolve_of_not_isStray hstray, hbefore.registers_after, if_pos hquantum,
    quantumOf_append, addressOf_append hquantum]

/-- The operands of the operations are the addresses of their places in quantum registers.  Each
address below the total size belongs to one place, which has it from its declaration on, and no sum
that is formed on the way leaves the words. -/
theorem operands_of_good_calls (name : String) (calls : List Call) (h : AllGood calls)
    (htotal : totalSize (quantumOf calls) < 2 ^ 64) :
    (∃ p, Program.ofCalls name calls = .ok p ∧ p.registers = quantumOf calls ∧
      p.unrolled = calls.filterMap (Call.operation? (quantumOf calls))) ∧
    Set.BijOn (addressOf (quantumOf calls)) {place | IsPlace (quantumOf calls) place}
      {a | a.toNat < totalSize (quantumOf calls)} ∧
    (∀ place, IsPlace (quantumOf calls) place →
      (addressOf (quantumOf calls) place).toNat = positionOf (quantumOf calls) place) ∧
    ∀ before rest, calls = before ++ rest →
      (∀ place, IsPlace (quantumOf before) place →
        (Builder.after name before).resolve place.1 place.2 =
          .ok (some (addressOf (quantumOf calls) place))) ∧
      ∀ register index, (Builder.after name before).resolveChecked register index =
        some ((Builder.after name before).resolve register index) := by
  refine ⟨?_, bijOn_addressOf h.distinct_quantumOf htotal,
    fun _ => toNat_addressOf h.distinct_quantumOf htotal, ?_⟩
  · obtain ⟨p, hp, hregisters, -, hunrolled⟩ := h.exists_program name
    exact ⟨p, hp, hregisters, hunrolled⟩
  · rintro before rest rfl
    have hregisters := h.of_append.registers_after name
    have hwords : totalSize (Builder.after name before).registers < 2 ^ 64 := by
      rw [quantumOf_append, totalSize_append] at htotal
      rw [hregisters]
      omega
    exact ⟨fun place => h.resolve_after name, Builder.resolveChecked_eq hwords⟩

namespace Example

/-- A register without places, and operations before and after the last register is declared. -/
def mixedCalls : List Call :=
  [.register "a" 2, .register "none" 0, .op .h [("a", 1)] [], .classical "c" 1, .register "b" 3,
    .op .measure [("b", 2), ("c", 0), ("a", 1)] []]

/-- The place that both operations touch has one address, and the five places have five. -/
theorem operands_mixedCalls :
    (AllGood mixedCalls ∧ totalSize (quantumOf mixedCalls) < 2 ^ 64) ∧
    (∃ p, Program.ofCalls "mixed" mixedCalls = .ok p ∧
      p.unrolled = [⟨.h, [1], []⟩, ⟨.measure, [4, 1], []⟩]) ∧
    Set.BijOn (addressOf (quantumOf mixedCalls)) {place | IsPlace (quantumOf mixedCalls) place}
      {a | a.toNat < 5} := by
  have hgood : AllGood mixedCalls := by decide
  have htotal : totalSize (quantumOf mixedCalls) < 2 ^ 64 := by decide
  obtain ⟨⟨p, hp, -, hunrolled⟩, hbij, -⟩ := operands_of_good_calls "mixed" mixedCalls hgood htotal
  exact ⟨⟨hgood, htotal⟩, ⟨p, hp, hunrolled.trans (by decide)⟩, hbij⟩

end Example

end CircuitCache
