import Mathlib
import CircuitCache.Program.Builder

/-!
# Places in registers

A place is a name and an index.  It is stray where no register has the name, or the index is not
below its size (`IsStray`); then the builder has an error about it (`PlaceFault`).  Any other place
is resolved: in a quantum register to its address, which is its index after all the registers
declared before its own (`addressOf`), and in a classical register to nothing.
-/

namespace CircuitCache

/-! ## Addresses -/

/-- How many addresses the registers take. -/
def totalSize (registers : List Register) : ℕ := (registers.map Register.size).sum

/-- The size of all registers before the one of this name. -/
def offsetOf (registers : List Register) (name : String) : ℕ :=
  totalSize (registers.takeWhile (·.name ≠ name))

/-- The position of a place: its index after the registers before its own. -/
def positionOf (registers : List Register) (place : String × ℕ) : ℕ :=
  offsetOf registers place.1 + place.2

/-- The position of a place as an address. -/
def addressOf (registers : List Register) (place : String × ℕ) : Address :=
  UInt64.ofNat (positionOf registers place)

/-- The addresses of the places whose register is among these, in order. -/
def operandsOf (registers : List Register) (places : List (String × ℕ)) : List Address :=
  (places.filter fun place => ∃ r ∈ registers, r.name = place.1).map (addressOf registers)

variable {registers : List Register} {r : Register} {name : String} {index : ℕ}
  {place : String × ℕ} {error : CircuitError}

theorem totalSize_cons (r : Register) (registers : List Register) :
    totalSize (r :: registers) = r.size + totalSize registers := rfl

theorem totalSize_append (registers more : List Register) :
    totalSize (registers ++ more) = totalSize registers + totalSize more := by
  simp [totalSize]

theorem offsetOf_cons_self (r : Register) (registers : List Register) :
    offsetOf (r :: registers) r.name = 0 := by
  simp [offsetOf, totalSize]

theorem offsetOf_cons_of_ne (h : r.name ≠ name) (registers : List Register) :
    offsetOf (r :: registers) name = r.size + offsetOf registers name := by
  simp [offsetOf, totalSize, h]

/-- Registers declared later do not move those that are there. -/
theorem offsetOf_append (h : ∃ r ∈ registers, r.name = name) (more : List Register) :
    offsetOf (registers ++ more) name = offsetOf registers name := by
  induction registers with
  | nil => simp at h
  | cons s registers ih =>
    by_cases hname : s.name = name
    · subst hname
      rw [List.cons_append, offsetOf_cons_self, offsetOf_cons_self]
    · obtain ⟨r, hr, hrname⟩ := h
      have hrest : ∃ r ∈ registers, r.name = name := by
        obtain rfl | hr := List.mem_cons.1 hr
        · exact absurd hrname hname
        · exact ⟨r, hr, hrname⟩
      rw [List.cons_append, offsetOf_cons_of_ne hname, offsetOf_cons_of_ne hname, ih hrest]

theorem addressOf_append (h : ∃ r ∈ registers, r.name = place.1) (more : List Register) :
    addressOf (registers ++ more) place = addressOf registers place := by
  rw [addressOf, addressOf, positionOf, positionOf, offsetOf_append h]

/-! ## Stray places -/

/-- The place has a name that no register has, or an index that is not below the size. -/
def IsStray (registers : List Register) (place : String × ℕ) : Prop :=
  (∀ r ∈ registers, r.name ≠ place.1) ∨ ∃ r ∈ registers, r.name = place.1 ∧ r.size ≤ place.2

instance (registers : List Register) (place : String × ℕ) : Decidable (IsStray registers place) :=
  inferInstanceAs (Decidable (_ ∨ _))

/-- What is wrong with a place, and the error that says so. -/
inductive PlaceFault (registers : List Register) : String × ℕ → CircuitError → Prop
  | unknown {name : String} {index : ℕ} (h : ∀ r ∈ registers, r.name ≠ name) :
    PlaceFault registers (name, index)
      (.unknownRegister name (Text.nearest? name (registers.map Register.name)))
  | outside {name : String} {index : ℕ} {r : Register} (hr : r ∈ registers) (hname : r.name = name)
    (h : r.size ≤ index) :
    PlaceFault registers (name, index) (.operandOutOfRange name index r.size)

theorem isStray_iff_exists_fault :
    IsStray registers place ↔ ∃ error, PlaceFault registers place error := by
  constructor
  · rintro (hname | ⟨r, hr, hname, hsize⟩)
    · exact ⟨_, .unknown hname⟩
    · exact ⟨_, .outside hr hname hsize⟩
  · rintro ⟨error, hfault⟩
    cases hfault with
    | unknown h => exact .inl h
    | outside hr hname h => exact .inr ⟨_, hr, hname, h⟩

theorem lt_size_of_not_isStray (h : ¬IsStray registers place) (hr : r ∈ registers)
    (hname : r.name = place.1) : place.2 < r.size := by
  by_contra hge
  exact h (.inr ⟨r, hr, hname, not_lt.1 hge⟩)

theorem exists_of_not_isStray (h : ¬IsStray registers place) :
    ∃ r ∈ registers, r.name = place.1 := by
  by_contra hnone
  exact h (.inl fun r hr hname => hnone ⟨r, hr, hname⟩)

/-- With distinct names, a register is found by its name. -/
theorem eq_of_name_eq (hdistinct : (registers.map Register.name).Nodup) {s : Register}
    (hr : r ∈ registers) (hs : s ∈ registers) (h : r.name = s.name) : r = s :=
  List.inj_on_of_nodup_map hdistinct hr hs h

theorem find?_eq_some_of_mem (hdistinct : (registers.map Register.name).Nodup) (hr : r ∈ registers)
    (hname : r.name = name) : registers.find? (·.name = name) = some r := by
  cases hfind : registers.find? (·.name = name) with
  | none => exact absurd hname (by simpa using List.find?_eq_none.1 hfind r hr)
  | some s =>
    have hsname : s.name = name := by simpa using List.find?_some hfind
    rw [eq_of_name_eq hdistinct (List.mem_of_find?_eq_some hfind) hr (hsname.trans hname.symm)]

namespace Builder

/-! ## Resolving a place -/

/-- The search for a register adds up the sizes that it passes. -/
theorem find?_eq (name : String) (offset : ℕ) (registers : List Register) :
    find? name offset registers =
      (registers.find? (·.name = name)).map fun r => (r, offset + offsetOf registers name) := by
  induction registers generalizing offset with
  | nil => rfl
  | cons r registers ih =>
    rw [find?]
    by_cases hname : r.name = name
    · subst hname
      simp [offsetOf_cons_self]
    · simp [hname, ih, offsetOf_cons_of_ne, Nat.add_assoc]

variable {b : Builder}

/-- A place is judged by the first declared register of its name. -/
theorem resolve_eq (b : Builder) (name : String) (index : ℕ) :
    b.resolve name index =
      match b.declared.find? (·.name = name) with
      | none => .error (.unknownRegister name (Text.nearest? name (b.declared.map Register.name)))
      | some r =>
        if index < r.size then
          .ok (if ∃ r ∈ b.registers, r.name = name then some (addressOf b.registers (name, index))
            else none)
        else .error (.operandOutOfRange name index r.size) := by
  rw [resolve, find?_eq, find?_eq, declared, List.find?_append]
  cases hquantum : b.registers.find? (·.name = name) with
  | none =>
    have hnone : ¬∃ r ∈ b.registers, r.name = name := by simpa using hquantum
    cases hclassical : b.classical.find? (·.name = name) with
    | none => simp
    | some r =>
      have hname : r.name = name := by simpa using List.find?_some hclassical
      simp [hnone, hname]
  | some r =>
    have hname : r.name = name := by simpa using List.find?_some hquantum
    have hsome : ∃ r ∈ b.registers, r.name = name :=
      ⟨r, List.mem_of_find?_eq_some hquantum, hname⟩
    simp [hsome, hname, addressOf, positionOf]

/-- A place that is there has its address, or none in a classical register. -/
theorem resolve_of_not_isStray (h : ¬IsStray b.declared (name, index)) :
    b.resolve name index = .ok
      (if ∃ r ∈ b.registers, r.name = name then some (addressOf b.registers (name, index))
        else none) := by
  rw [resolve_eq]
  cases hfind : b.declared.find? (·.name = name) with
  | none =>
    obtain ⟨r, hr, hname⟩ := exists_of_not_isStray h
    exact absurd hname (by simpa using List.find?_eq_none.1 hfind r hr)
  | some r =>
    have hname : r.name = name := by simpa using List.find?_some hfind
    exact if_pos (lt_size_of_not_isStray h (List.mem_of_find?_eq_some hfind) hname)

theorem resolve_of_fault (hdistinct : (b.declared.map Register.name).Nodup)
    (h : PlaceFault b.declared (name, index) error) : b.resolve name index = .error error := by
  rw [resolve_eq]
  cases h with
  | unknown h =>
    have hnone : b.declared.find? (·.name = name) = none := by simpa using h
    rw [hnone]
  | outside hr hname h =>
    rw [find?_eq_some_of_mem hdistinct hr hname]
    exact if_neg (not_lt.2 h)

theorem resolve_eq_error_iff (hdistinct : (b.declared.map Register.name).Nodup) :
    b.resolve name index = .error error ↔ PlaceFault b.declared (name, index) error := by
  refine ⟨fun h => ?_, resolve_of_fault hdistinct⟩
  have hstray : IsStray b.declared (name, index) := by
    by_contra hthere
    simp [resolve_of_not_isStray hthere] at h
  obtain ⟨other, hfault⟩ := isStray_iff_exists_fault.1 hstray
  obtain rfl := Except.error.inj (h.symm.trans (resolve_of_fault hdistinct hfault))
  exact hfault

/-- The error that a place is resolved to. -/
def fault? (b : Builder) (place : String × ℕ) : Option CircuitError :=
  match b.resolve place.1 place.2 with
  | .error error => some error
  | .ok _ => none

theorem fault?_eq_some_iff (hdistinct : (b.declared.map Register.name).Nodup) :
    b.fault? place = some error ↔ PlaceFault b.declared place error := by
  rw [← resolve_eq_error_iff hdistinct, fault?]
  cases b.resolve place.1 place.2 <;> simp

theorem fault?_eq_none_iff (hdistinct : (b.declared.map Register.name).Nodup) :
    b.fault? place = none ↔ ¬IsStray b.declared place := by
  rw [Option.eq_none_iff_forall_ne_some, isStray_iff_exists_fault, not_exists]
  exact forall_congr' fun error => not_congr (fault?_eq_some_iff hdistinct)

/-! ## Resolving several places -/

variable {places : List (String × ℕ)}

/-- The error of several places is that of the first one that has an error. -/
theorem resolveAll_eq_error_iff :
    b.resolveAll places = .error error ↔ places.findSome? b.fault? = some error := by
  induction places with
  | nil => simp [resolveAll]
  | cons place places ih =>
    rw [resolveAll, List.findSome?_cons, fault?]
    cases b.resolve place.1 place.2 with
    | error other => simp
    | ok address =>
      simp only [← ih]
      cases b.resolveAll places <;> simp

theorem exists_resolveAll_eq_ok (h : places.findSome? b.fault? = none) :
    ∃ operands, b.resolveAll places = .ok operands := by
  cases hresolve : b.resolveAll places with
  | error e =>
    rw [resolveAll_eq_error_iff, h] at hresolve
    simp at hresolve
  | ok operands => exact ⟨operands, rfl⟩

/-- The first place with an error is the first that is not there. -/
theorem findSome?_fault?_eq_some_iff (hdistinct : (b.declared.map Register.name).Nodup) :
    places.findSome? b.fault? = some error ↔
      ∃ before place after, places = before ++ place :: after ∧
        PlaceFault b.declared place error ∧ ∀ p ∈ before, ¬IsStray b.declared p := by
  rw [List.findSome?_eq_some_iff]
  simp only [fault?_eq_some_iff hdistinct, fault?_eq_none_iff hdistinct]

theorem resolveAll_of_not_isStray (h : ∀ place ∈ places, ¬IsStray b.declared place) :
    b.resolveAll places = .ok (operandsOf b.registers places) := by
  induction places with
  | nil => rfl
  | cons place places ih =>
    obtain ⟨hplace, hplaces⟩ := List.forall_mem_cons.1 h
    rw [resolveAll, resolve_of_not_isStray hplace, ih hplaces]
    by_cases hquantum : ∃ r ∈ b.registers, r.name = place.1
    · simp [operandsOf, hquantum]
    · simp [operandsOf, hquantum]

end Builder

end CircuitCache
