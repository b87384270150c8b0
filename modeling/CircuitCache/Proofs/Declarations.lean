import Mathlib
import CircuitCache.Proofs.Places

/-!
# Good and bad calls

A call to the builder is judged by the registers that the good calls before it declare: a name can
be declared once, and an operand has to be a place of a register that is there (`Call.IsBad`).  The
builder knows exactly these registers (`Builder.Knows`), whatever bad calls it has passed over.  So
building fails exactly when some call is bad, and the error is about the first one, whatever follows
it.
-/

namespace CircuitCache

/-! ## Judging a call -/

namespace Call

/-- The quantum register that the call declares. -/
def quantum? : Call → Option Register
  | register name size => some ⟨name, size⟩
  | _ => none

/-- The classical register that the call declares. -/
def classical? : Call → Option Register
  | classical name size => some ⟨name, size⟩
  | _ => none

end Call

/-- The quantum registers that the calls declare, in order. -/
def quantumOf (calls : List Call) : List Register := calls.filterMap Call.quantum?

/-- The classical registers that the calls declare, in order. -/
def classicalOf (calls : List Call) : List Register := calls.filterMap Call.classical?

/-- The registers that the calls declare, quantum ones first. -/
def declaredBy (calls : List Call) : List Register := quantumOf calls ++ classicalOf calls

theorem quantumOf_concat (calls : List Call) (call : Call) :
    quantumOf (calls ++ [call]) = quantumOf calls ++ call.quantum?.toList := by
  rw [quantumOf, List.filterMap_append]
  cases call <;> rfl

theorem classicalOf_concat (calls : List Call) (call : Call) :
    classicalOf (calls ++ [call]) = classicalOf calls ++ call.classical?.toList := by
  rw [classicalOf, List.filterMap_append]
  cases call <;> rfl

namespace Call

/-- The call is bad where these are the registers declared before. -/
def IsBad (registers : List Register) : Call → Prop
  | register name _ | classical name _ => ∃ r ∈ registers, r.name = name
  | op _ places _ => ∃ place ∈ places, IsStray registers place
  | opens _ | closes => False

instance (registers : List Register) : (call : Call) → Decidable (call.IsBad registers)
  | register name _ | classical name _ => inferInstanceAs (Decidable (∃ r ∈ registers, r.name = name))
  | op _ places _ => inferInstanceAs (Decidable (∃ place ∈ places, IsStray registers place))
  | opens _ | closes => inferInstanceAs (Decidable False)

/-- What is wrong with a call, and the error that says so.  That of an operation is about the first
place that is not there. -/
inductive Fault (registers : List Register) : Call → CircuitError → Prop
  | register {name : String} {size : ℕ} (h : ∃ r ∈ registers, r.name = name) :
    Fault registers (register name size) (.duplicateRegister name)
  | classical {name : String} {size : ℕ} (h : ∃ r ∈ registers, r.name = name) :
    Fault registers (classical name size) (.duplicateRegister name)
  | op {tag : Tag} {params : List Param} {before after : List (String × ℕ)} {place : String × ℕ}
    {error : CircuitError} (hbefore : ∀ p ∈ before, ¬IsStray registers p)
    (h : PlaceFault registers place error) :
    Fault registers (op tag (before ++ place :: after) params) error

end Call

/-- The good ones of the calls, each judged by the registers that the good ones before it declare. -/
def goodCalls (calls : List Call) : List Call :=
  calls.foldl (fun good call => if call.IsBad (declaredBy good) then good else good ++ [call]) []

/-- No call is bad. -/
def AllGood (calls : List Call) : Prop :=
  ∀ before call after, calls = before ++ call :: after → ¬call.IsBad (declaredBy (goodCalls before))

theorem goodCalls_concat (calls : List Call) (call : Call) :
    goodCalls (calls ++ [call]) =
      if call.IsBad (declaredBy (goodCalls calls)) then goodCalls calls
      else goodCalls calls ++ [call] := by
  rw [goodCalls, List.foldl_append]
  rfl

theorem allGood_nil : AllGood [] := by
  intro before call after h
  simp at h

theorem allGood_concat_iff {calls : List Call} {call : Call} :
    AllGood (calls ++ [call]) ↔
      AllGood calls ∧ ¬call.IsBad (declaredBy (goodCalls calls)) := by
  constructor
  · intro h
    refine ⟨fun before c after hsplit => ?_, h calls call [] rfl⟩
    exact h before c (after ++ [call]) (by simp [hsplit])
  · rintro ⟨hcalls, hcall⟩ before c after hsplit
    obtain rfl | ⟨after, d, rfl⟩ := after.eq_nil_or_concat'
    · obtain ⟨rfl, hc⟩ := List.append_inj' hsplit rfl
      obtain rfl := (List.cons.inj hc).1
      exact hcall
    · rw [← List.cons_append, ← List.append_assoc] at hsplit
      exact hcalls before c after (List.append_inj' hsplit rfl).1

theorem length_goodCalls_le (calls : List Call) : (goodCalls calls).length ≤ calls.length := by
  induction calls using List.reverseRecOn with
  | nil => exact le_rfl
  | append_singleton calls call ih =>
    rw [goodCalls_concat]
    split_ifs <;> simp <;> omega

/-- No call is bad exactly when none is left out. -/
theorem allGood_iff {calls : List Call} : AllGood calls ↔ goodCalls calls = calls := by
  induction calls using List.reverseRecOn with
  | nil => exact iff_of_true allGood_nil rfl
  | append_singleton calls call ih =>
    rw [allGood_concat_iff, goodCalls_concat, ih]
    split_ifs with hcall
    · refine iff_of_false (fun h => h.2 hcall) fun h => ?_
      have hlength := length_goodCalls_le calls
      rw [h, List.length_append, List.length_singleton] at hlength
      omega
    · simp [hcall]

instance : DecidablePred AllGood := fun _ => decidable_of_iff _ allGood_iff.symm

/-- Where some call is bad there is a first one. -/
theorem exists_first_isBad {calls : List Call} (h : ¬AllGood calls) :
    ∃ before call after, calls = before ++ call :: after ∧ AllGood before ∧
      call.IsBad (declaredBy (goodCalls before)) := by
  induction calls using List.reverseRecOn with
  | nil => exact absurd allGood_nil h
  | append_singleton calls last ih =>
    by_cases hcalls : AllGood calls
    · refine ⟨calls, last, [], rfl, hcalls, ?_⟩
      by_contra hlast
      exact h (allGood_concat_iff.2 ⟨hcalls, hlast⟩)
    · obtain ⟨before, call, after, rfl, hbefore, hcall⟩ := ih hcalls
      exact ⟨before, call, after ++ [last], by simp, hbefore, hcall⟩

/-- A new register keeps the names distinct, wherever it is put. -/
theorem nodup_insert (before after : List Register) {r : Register}
    (hdistinct : ((before ++ after).map Register.name).Nodup)
    (h : ∀ s ∈ before ++ after, s.name ≠ r.name) :
    ((before ++ r :: after).map Register.name).Nodup := by
  have hperm : List.Perm ((before ++ r :: after).map Register.name)
      ((r :: (before ++ after)).map Register.name) := List.perm_middle.map Register.name
  rw [hperm.nodup_iff, List.map_cons, List.nodup_cons, List.mem_map]
  exact ⟨fun ⟨s, hs, hname⟩ => h s hs hname, hdistinct⟩

/-! ## Calls -/

namespace Builder

variable {b : Builder} {call : Call} {error : CircuitError}

/-- The error with which a call is refused. -/
def refusal? (b : Builder) : Call → Option CircuitError
  | .register name _ | .classical name _ =>
    if b.isDeclared name then some (.duplicateRegister name) else none
  | .op _ places _ => places.findSome? b.fault?
  | .opens _ | .closes => none

theorem isDeclared_iff {name : String} :
    b.isDeclared name = true ↔ ∃ r ∈ b.declared, r.name = name := by
  simp [isDeclared]

theorem refusal?_eq_some_iff (hdistinct : (b.declared.map Register.name).Nodup) :
    b.refusal? call = some error ↔ call.Fault b.declared error := by
  constructor
  · intro h
    cases call with
    | register name size =>
      rw [refusal?] at h
      split_ifs at h with hname
      obtain rfl := Option.some.inj h
      exact .register (isDeclared_iff.1 hname)
    | classical name size =>
      rw [refusal?] at h
      split_ifs at h with hname
      obtain rfl := Option.some.inj h
      exact .classical (isDeclared_iff.1 hname)
    | op tag places params =>
      obtain ⟨before, place, after, rfl, hplace, hbefore⟩ :=
        (findSome?_fault?_eq_some_iff hdistinct).1 h
      exact .op hbefore hplace
    | opens name => exact absurd h nofun
    | closes => exact absurd h nofun
  · intro h
    cases h with
    | register h => exact if_pos (isDeclared_iff.2 h)
    | classical h => exact if_pos (isDeclared_iff.2 h)
    | op hbefore h => exact (findSome?_fault?_eq_some_iff hdistinct).2 ⟨_, _, _, rfl, h, hbefore⟩

theorem refusal?_eq_none_iff (hdistinct : (b.declared.map Register.name).Nodup) :
    b.refusal? call = none ↔ ¬call.IsBad b.declared := by
  cases call with
  | register name size => simp [refusal?, Call.IsBad, isDeclared_iff]
  | classical name size => simp [refusal?, Call.IsBad, isDeclared_iff]
  | op tag places params =>
    rw [refusal?, List.findSome?_eq_none_iff, Call.IsBad]
    simp only [fault?_eq_none_iff hdistinct, not_exists, not_and]
  | opens name => simp [refusal?, Call.IsBad]
  | closes => simp [refusal?, Call.IsBad]

/-- A call that is refused only leaves its error. -/
theorem apply_of_refusal? (h : b.refusal? call = some error) :
    b.apply call = b.fail error := by
  cases call with
  | register name size =>
    rw [refusal?] at h
    split_ifs at h with hname
    obtain rfl := Option.some.inj h
    exact if_pos hname
  | classical name size =>
    rw [refusal?] at h
    split_ifs at h with hname
    obtain rfl := Option.some.inj h
    exact if_pos hname
  | op tag places params => rw [apply, resolveAll_eq_error_iff.2 h]
  | opens name => exact absurd h nofun
  | closes => exact absurd h nofun

@[simp] theorem registers_close (b : Builder) : b.close.registers = b.registers := by
  rw [close]
  cases b.frames <;> rfl

@[simp] theorem classical_close (b : Builder) : b.close.classical = b.classical := by
  rw [close]
  cases b.frames <;> rfl

@[simp] theorem error_close (b : Builder) : b.close.error = b.error := by
  rw [close]
  cases b.frames <;> rfl

/-- A call that is not refused declares its register, and leaves no error. -/
theorem apply_of_refusal?_eq_none (h : b.refusal? call = none) :
    (b.apply call).registers = b.registers ++ call.quantum?.toList ∧
      (b.apply call).classical = b.classical ++ call.classical?.toList ∧
      (b.apply call).error = b.error := by
  cases call with
  | register name size =>
    have hname : b.isDeclared name = false := by simpa [refusal?] using h
    simp [apply, hname, Call.quantum?, Call.classical?]
  | classical name size =>
    have hname : b.isDeclared name = false := by simpa [refusal?] using h
    simp [apply, hname, Call.quantum?, Call.classical?]
  | op tag places params =>
    obtain ⟨operands, hoperands⟩ := exists_resolveAll_eq_ok h
    simp [apply, hoperands, push, Call.quantum?, Call.classical?]
  | opens name => simp [apply, Call.quantum?, Call.classical?]
  | closes => simp [apply, Call.quantum?, Call.classical?]

/-- A register that is not refused has a new name. -/
theorem nodup_declared_apply (hdistinct : (b.declared.map Register.name).Nodup)
    (h : b.refusal? call = none) : ((b.apply call).declared.map Register.name).Nodup := by
  have hgood := (refusal?_eq_none_iff hdistinct).1 h
  obtain ⟨hregisters, hclassical, -⟩ := apply_of_refusal?_eq_none h
  rw [declared, hregisters, hclassical]
  cases call with
  | register name size =>
    have hnew : ∀ s ∈ b.declared, s.name ≠ name := fun s hs hname => hgood ⟨s, hs, hname⟩
    have hmiddle := nodup_insert (r := ⟨name, size⟩) b.registers b.classical hdistinct hnew
    simpa [Call.quantum?, Call.classical?] using hmiddle
  | classical name size =>
    have hnew : ∀ s ∈ b.declared, s.name ≠ name := fun s hs hname => hgood ⟨s, hs, hname⟩
    have hlast := nodup_insert (r := ⟨name, size⟩) b.declared []
      (by simpa using hdistinct) (by simpa using hnew)
    simpa [Call.quantum?, Call.classical?, declared] using hlast
  | op tag places params => simpa [Call.quantum?, Call.classical?, declared] using hdistinct
  | opens name => simpa [Call.quantum?, Call.classical?, declared] using hdistinct
  | closes => simpa [Call.quantum?, Call.classical?, declared] using hdistinct

end Builder

/-! ## What the builder knows -/

namespace Builder

/-- The builder after these calls. -/
def after (name : String) (calls : List Call) : Builder := calls.foldl apply (empty name)

theorem after_concat (name : String) (calls : List Call) (call : Call) :
    after name (calls ++ [call]) = (after name calls).apply call := by
  rw [after, List.foldl_append]
  rfl

/-- The registers of the builder are those that the good ones of the calls declare, and no two of
them share a name. -/
structure Knows (b : Builder) (calls : List Call) : Prop where
  registers : b.registers = quantumOf (goodCalls calls)
  classical : b.classical = classicalOf (goodCalls calls)
  distinct : (b.declared.map Register.name).Nodup

variable {b : Builder} {calls : List Call} {call : Call}

theorem Knows.declared_eq (h : b.Knows calls) : b.declared = declaredBy (goodCalls calls) := by
  rw [declared, h.registers, h.classical, declaredBy]

theorem Knows.refusal?_eq_some_iff (h : b.Knows calls) {error : CircuitError} :
    b.refusal? call = some error ↔ call.Fault (declaredBy (goodCalls calls)) error := by
  rw [Builder.refusal?_eq_some_iff h.distinct, h.declared_eq]

theorem Knows.refusal?_eq_none_iff (h : b.Knows calls) :
    b.refusal? call = none ↔ ¬call.IsBad (declaredBy (goodCalls calls)) := by
  rw [Builder.refusal?_eq_none_iff h.distinct, h.declared_eq]

theorem Knows.apply (h : b.Knows calls) : (b.apply call).Knows (calls ++ [call]) := by
  cases hrefusal : b.refusal? call with
  | some error =>
    have hbad : call.IsBad (declaredBy (goodCalls calls)) := by
      by_contra hgood
      simp [h.refusal?_eq_none_iff.2 hgood] at hrefusal
    rw [apply_of_refusal? hrefusal]
    refine ⟨?_, ?_, h.distinct⟩
    · rw [goodCalls_concat, if_pos hbad]
      exact h.registers
    · rw [goodCalls_concat, if_pos hbad]
      exact h.classical
  | none =>
    have hgood := h.refusal?_eq_none_iff.1 hrefusal
    obtain ⟨hregisters, hclassical, -⟩ := apply_of_refusal?_eq_none hrefusal
    refine ⟨?_, ?_, nodup_declared_apply h.distinct hrefusal⟩
    · rw [goodCalls_concat, if_neg hgood, hregisters, h.registers, quantumOf_concat]
    · rw [goodCalls_concat, if_neg hgood, hclassical, h.classical, classicalOf_concat]

theorem knows_after (name : String) (calls : List Call) : (after name calls).Knows calls := by
  induction calls using List.reverseRecOn with
  | nil => exact ⟨rfl, rfl, List.nodup_nil⟩
  | append_singleton calls call ih =>
    rw [after_concat]
    exact ih.apply

/-! ## The first error -/

theorem error_apply_of_error {error : CircuitError} (h : b.error = some error) :
    (b.apply call).error = some error := by
  cases hrefusal : b.refusal? call with
  | some other => simp [apply_of_refusal? hrefusal, fail, h]
  | none => rw [(apply_of_refusal?_eq_none hrefusal).2.2, h]

/-- Once there is an error, no further call replaces it. -/
theorem error_foldl_apply {error : CircuitError} (h : b.error = some error) (calls : List Call) :
    (calls.foldl apply b).error = some error := by
  induction calls generalizing b with
  | nil => exact h
  | cons call calls ih => exact ih (error_apply_of_error h)

theorem error_after_of_allGood (name : String) (h : AllGood calls) :
    (after name calls).error = none := by
  induction calls using List.reverseRecOn with
  | nil => rfl
  | append_singleton calls call ih =>
    obtain ⟨hcalls, hcall⟩ := allGood_concat_iff.1 h
    have hrefusal := (knows_after name calls).refusal?_eq_none_iff.2 hcall
    rw [after_concat, (apply_of_refusal?_eq_none hrefusal).2.2, ih hcalls]

/-- The first bad call leaves its error for good. -/
theorem error_after_of_fault (name : String) {before : List Call} {error : CircuitError}
    (hbefore : AllGood before) (h : call.Fault (declaredBy (goodCalls before)) error)
    (rest : List Call) : (after name (before ++ call :: rest)).error = some error := by
  have hrefusal := (knows_after name before).refusal?_eq_some_iff.2 h
  have hcall : ((after name before).apply call).error = some error := by
    rw [apply_of_refusal? hrefusal, fail, error_after_of_allGood name hbefore]
    rfl
  rw [after, List.foldl_append, List.foldl_cons]
  exact error_foldl_apply hcall rest

theorem exists_fault_of_isBad (h : call.IsBad (declaredBy (goodCalls calls))) :
    ∃ error, call.Fault (declaredBy (goodCalls calls)) error := by
  have hknows := knows_after "" calls
  cases hrefusal : (after "" calls).refusal? call with
  | none => exact absurd h (hknows.refusal?_eq_none_iff.1 hrefusal)
  | some error => exact ⟨error, hknows.refusal?_eq_some_iff.1 hrefusal⟩

end Builder

variable {calls : List Call} {error : CircuitError}

theorem ofCalls_eq_error_iff {name : String} : Program.ofCalls name calls = .error error ↔
    (Builder.after name calls).error = some error := by
  show (Builder.after name calls).build = .error error ↔ _
  rw [Builder.build]
  cases (Builder.after name calls).error <;> simp

theorem AllGood.registers_after (h : AllGood calls) (name : String) :
    (Builder.after name calls).registers = quantumOf calls := by
  rw [(Builder.knows_after name calls).registers, allGood_iff.1 h]

theorem AllGood.declared_after (h : AllGood calls) (name : String) :
    (Builder.after name calls).declared = declaredBy calls := by
  rw [(Builder.knows_after name calls).declared_eq, allGood_iff.1 h]

theorem AllGood.distinct (h : AllGood calls) : ((declaredBy calls).map Register.name).Nodup := by
  rw [← h.declared_after ""]
  exact (Builder.knows_after "" calls).distinct

/-- Good calls are built, with every open group closed. -/
theorem AllGood.ofCalls_eq (h : AllGood calls) (name : String) :
    Program.ofCalls name calls = .ok ⟨(Builder.after name calls).name, quantumOf calls,
      Builder.closeAll (Builder.after name calls).frames (Builder.after name calls).steps⟩ := by
  show (Builder.after name calls).build = _
  rw [Builder.build, Builder.error_after_of_allGood name h, h.registers_after]

theorem not_allGood_of_ofCalls {name : String} (h : Program.ofCalls name calls = .error error) :
    ¬AllGood calls := by
  intro hgood
  rw [hgood.ofCalls_eq name] at h
  simp at h

/-- Where some call is bad, the first one has an error, and building ends with it. -/
theorem exists_first_fault (name : String) (h : ¬AllGood calls) :
    ∃ before call after error, calls = before ++ call :: after ∧ AllGood before ∧
      call.Fault (declaredBy (goodCalls before)) error ∧
      Program.ofCalls name calls = .error error := by
  obtain ⟨before, call, after, rfl, hbefore, hcall⟩ := exists_first_isBad h
  obtain ⟨error, hfault⟩ := Builder.exists_fault_of_isBad hcall
  exact ⟨before, call, after, error, rfl, hbefore, hfault,
    ofCalls_eq_error_iff.2 (Builder.error_after_of_fault name hbefore hfault after)⟩

/-- Building fails exactly when some call is bad, and then with the error of the first bad call. -/
theorem ofCalls_fails_iff_isBad (name : String) (calls : List Call) :
    ((∃ error, Program.ofCalls name calls = .error error) ↔
      ∃ before call after, calls = before ++ call :: after ∧
        call.IsBad (declaredBy (goodCalls before))) ∧
    ∀ error, Program.ofCalls name calls = .error error ↔
      ∃ before call after, calls = before ++ call :: after ∧ AllGood before ∧
        call.Fault (declaredBy (goodCalls before)) error := by
  constructor
  · constructor
    · rintro ⟨error, h⟩
      obtain ⟨before, call, after, hsplit, -, hcall⟩ :=
        exists_first_isBad (not_allGood_of_ofCalls h)
      exact ⟨before, call, after, hsplit, hcall⟩
    · rintro ⟨before, call, after, hsplit, hcall⟩
      obtain ⟨-, -, -, error, -, -, -, h⟩ :=
        exists_first_fault name fun hgood => hgood before call after hsplit hcall
      exact ⟨error, h⟩
  · intro error
    constructor
    · intro h
      obtain ⟨before, call, after, other, hsplit, hbefore, hfault, hother⟩ :=
        exists_first_fault name (not_allGood_of_ofCalls h)
      obtain rfl := Except.error.inj (h.symm.trans hother)
      exact ⟨before, call, after, hsplit, hbefore, hfault⟩
    · rintro ⟨before, call, after, rfl, hbefore, hfault⟩
      exact ofCalls_eq_error_iff.2 (Builder.error_after_of_fault name hbefore hfault after)

/-- The misspelt register is reported, not the one that is declared again afterwards. -/
example : Program.ofCalls "typo"
    [.register "qreg" 2, .op .x [("qreq", 0)] [], .classical "qreg" 1, .op .x [("qreg", 2)] []] =
      .error (.unknownRegister "qreq" (some "qreg")) := by
  cbv

end CircuitCache
