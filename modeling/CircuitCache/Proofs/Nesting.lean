import Mathlib
import CircuitCache.Key
import CircuitCache.Mapping
import CircuitCache.Proofs.Operands

/-!
# Groups of calls

Written out, the steps of a program that is built from good calls are the calls themselves: an end
with nothing open is left out, and the groups that are open in the end are closed (`writtenCalls`).
Halfway, what the builder has written is the suspended steps of each open group with its beginning,
and then the steps so far (`Builder.written`).  So the operations of the program are those of the
calls in order, and groups change neither its key nor its mappings.
-/

namespace CircuitCache

/-- The operation that a token stands for. -/
def Token.operation? : Token → Option Operation
  | op operation => some operation
  | opens _ | closes _ => none

/-- The operation that a call asks for, where these are the quantum registers. -/
def Call.operation? (registers : List Register) : Call → Option Operation
  | op tag places params => some ⟨tag, operandsOf registers places, params⟩
  | _ => none

/-- Whether the call begins or ends a group. -/
def Call.isGrouping : Call → Bool
  | opens _ | closes => true
  | _ => false

/-- The calls written out where groups of these names are open, the innermost first.  An end closes
the innermost group, and is left out when there is none.  Groups still open are closed. -/
def writtenCalls (registers : List Register) : (opened : List String) → List Call → List Token
  | opened, [] => opened.map .closes
  | opened, .op tag places params :: calls =>
    .op ⟨tag, operandsOf registers places, params⟩ :: writtenCalls registers opened calls
  | opened, .opens name :: calls => .opens name :: writtenCalls registers (name :: opened) calls
  | [], .closes :: calls => writtenCalls registers [] calls
  | name :: opened, .closes :: calls => .closes name :: writtenCalls registers opened calls
  | opened, .register _ _ :: calls | opened, .classical _ _ :: calls =>
    writtenCalls registers opened calls

/-! ## Operations of a text -/

mutual

theorem Step.filterMap_tokens :
    (step : Step) → step.tokens.filterMap Token.operation? = step.unrolled
  | .op operation => rfl
  | .composite name steps => by
    rw [Step.tokens, Step.unrolled, List.cons_append, List.filterMap_cons, List.filterMap_append,
      Step.filterMap_tokensAll steps]
    simp [Token.operation?]

theorem Step.filterMap_tokensAll :
    (steps : List Step) → (Step.tokensAll steps).filterMap Token.operation? = Step.unrolledAll steps
  | [] => rfl
  | step :: rest => by
    rw [Step.tokensAll, Step.unrolledAll, List.filterMap_append, Step.filterMap_tokens step,
      Step.filterMap_tokensAll rest]

end

theorem Program.unrolled_eq (p : Program) : p.unrolled = p.tokens.filterMap Token.operation? :=
  (Step.filterMap_tokensAll p.steps).symm

theorem filterMap_writtenCalls (registers : List Register) (opened : List String)
    (calls : List Call) : (writtenCalls registers opened calls).filterMap Token.operation? =
      calls.filterMap (Call.operation? registers) := by
  induction calls generalizing opened with
  | nil => induction opened <;> simp_all [writtenCalls, Token.operation?]
  | cons call calls ih =>
    cases call with
    | op tag places params => simp [writtenCalls, Token.operation?, Call.operation?, ih]
    | opens name => simp [writtenCalls, List.filterMap_cons, Token.operation?, Call.operation?, ih]
    | closes =>
      cases opened <;>
        simp [writtenCalls, List.filterMap_cons, Token.operation?, Call.operation?, ih]
    | register name size => simp [writtenCalls, List.filterMap_cons, Call.operation?, ih]
    | classical name size => simp [writtenCalls, List.filterMap_cons, Call.operation?, ih]

/-! ## What the builder has written -/

namespace Builder

/-- The steps of the open groups and the steps so far, written out. -/
def writtenFrom : List Frame → List Step → List Token
  | [], steps => Step.tokensAll steps
  | f :: frames, steps => writtenFrom frames f.suspended ++ .opens f.name :: Step.tokensAll steps

/-- All that the builder has taken in so far, written out. -/
def written (b : Builder) : List Token := writtenFrom b.frames b.steps

/-- The names of the open groups, the innermost first. -/
def opened (b : Builder) : List String := b.frames.map Frame.name

theorem writtenFrom_append (frames : List Frame) (xs ys : List Step) :
    writtenFrom frames (xs ++ ys) = writtenFrom frames xs ++ Step.tokensAll ys := by
  cases frames with
  | nil => exact Step.tokensAll_append xs ys
  | cons f frames => simp [writtenFrom, Step.tokensAll_append]

/-- Closing the open groups adds their ends. -/
theorem tokensAll_closeAll (frames : List Frame) (steps : List Step) :
    Step.tokensAll (closeAll frames steps) =
      writtenFrom frames steps ++ (frames.map Frame.name).map .closes := by
  induction frames generalizing steps with
  | nil => simp [closeAll, writtenFrom]
  | cons f frames ih =>
    rw [closeAll, ih, writtenFrom_append]
    simp [writtenFrom, Step.tokensAll, Step.tokens]

variable {b : Builder} {registers : List Register} {call : Call}

/-- What is written stays, and one more call adds what it says to it. -/
theorem written_apply (hcall : ∀ tag places params, call = .op tag places params →
      b.resolveAll places = .ok (operandsOf registers places)) (rest : List Call) :
    (b.apply call).written ++ writtenCalls registers (b.apply call).opened rest =
      b.written ++ writtenCalls registers b.opened (call :: rest) := by
  cases call with
  | op tag places params =>
    rw [apply, hcall tag places params rfl]
    simp [push, written, opened, writtenFrom_append, writtenCalls, Step.tokensAll, Step.tokens]
  | opens name => simp [apply, written, opened, writtenFrom, writtenCalls, Step.tokensAll]
  | closes =>
    rw [apply, close, written, written, opened, opened]
    cases hframes : b.frames with
    | nil => simp [hframes, writtenCalls]
    | cons f frames =>
      simp [writtenFrom, writtenFrom_append, writtenCalls, Step.tokensAll, Step.tokens]
  | register name size =>
    rw [apply]
    split_ifs <;> simp [fail, written, opened, writtenCalls]
  | classical name size =>
    rw [apply]
    split_ifs <;> simp [fail, written, opened, writtenCalls]

/-- At any moment, what is written and what the calls to come will add make up the whole. -/
theorem tokensAll_closeAll_after (name : String) {calls : List Call} (h : AllGood calls)
    (before rest : List Call) (hsplit : calls = before ++ rest) :
    Step.tokensAll (closeAll (after name calls).frames (after name calls).steps) =
      (after name before).written ++
        writtenCalls (quantumOf calls) (after name before).opened rest := by
  induction rest generalizing before with
  | nil =>
    rw [List.append_nil] at hsplit
    subst hsplit
    rw [tokensAll_closeAll, writtenCalls]
    rfl
  | cons call rest ih =>
    rw [ih (before ++ [call]) (by simp [hsplit]), after_concat]
    refine written_apply (fun tag places params hcall => ?_) rest
    subst hcall hsplit
    exact h.resolveAll_after name

end Builder

/-! ## Programs from good calls -/

variable {calls calls' : List Call}

/-- Good calls give a program that is the calls written out, and its operations are theirs. -/
theorem AllGood.exists_program (h : AllGood calls) (name : String) :
    ∃ p, Program.ofCalls name calls = .ok p ∧ p.registers = quantumOf calls ∧
      p.tokens = writtenCalls (quantumOf calls) [] calls ∧
      p.unrolled = calls.filterMap (Call.operation? (quantumOf calls)) := by
  have htokens := Builder.tokensAll_closeAll_after name h [] calls rfl
  refine ⟨_, h.ofCalls_eq name, rfl, htokens, ?_⟩
  rw [Program.unrolled_eq, Program.tokens, htokens]
  exact filterMap_writtenCalls (quantumOf calls) [] calls

/-! ## Calls that differ in their groups -/

/-- The calls without the beginnings and ends of groups. -/
def flatCalls (calls : List Call) : List Call := calls.filter fun call => !call.isGrouping

theorem flatCalls_concat (calls : List Call) (call : Call) :
    flatCalls (calls ++ [call]) =
      if call.isGrouping then flatCalls calls else flatCalls calls ++ [call] := by
  rw [flatCalls, List.filter_append]
  cases hgrouping : call.isGrouping <;> simp [hgrouping, flatCalls]

theorem filterMap_flatCalls {α : Type} {f : Call → Option α}
    (h : ∀ call, call.isGrouping = true → f call = none) (calls : List Call) :
    (flatCalls calls).filterMap f = calls.filterMap f := by
  rw [flatCalls, List.filterMap_filter]
  refine List.filterMap_congr fun call _ => ?_
  cases hgrouping : call.isGrouping with
  | false => rfl
  | true => exact (h call hgrouping).symm

theorem quantumOf_flatCalls (calls : List Call) : quantumOf (flatCalls calls) = quantumOf calls :=
  filterMap_flatCalls (fun call h => by cases call <;> simp_all [Call.isGrouping, Call.quantum?]) calls

theorem classicalOf_flatCalls (calls : List Call) :
    classicalOf (flatCalls calls) = classicalOf calls :=
  filterMap_flatCalls (fun call h => by cases call <;> simp_all [Call.isGrouping, Call.classical?])
    calls

theorem declaredBy_flatCalls (calls : List Call) :
    declaredBy (flatCalls calls) = declaredBy calls := by
  rw [declaredBy, quantumOf_flatCalls, classicalOf_flatCalls, declaredBy]

theorem filterMap_operation?_flatCalls (registers : List Register) (calls : List Call) :
    (flatCalls calls).filterMap (Call.operation? registers) =
      calls.filterMap (Call.operation? registers) :=
  filterMap_flatCalls (fun call h => by cases call <;> simp_all [Call.isGrouping, Call.operation?])
    calls

theorem Call.not_isBad_of_isGrouping {call : Call} (h : call.isGrouping = true)
    (registers : List Register) : ¬call.IsBad registers := by
  cases call <;> simp_all [isGrouping, IsBad]

theorem goodCalls_flatCalls (calls : List Call) :
    goodCalls (flatCalls calls) = flatCalls (goodCalls calls) := by
  induction calls using List.reverseRecOn with
  | nil => rfl
  | append_singleton calls call ih =>
    rw [flatCalls_concat, goodCalls_concat]
    cases hgrouping : call.isGrouping with
    | true =>
      rw [if_pos rfl, if_neg (call.not_isBad_of_isGrouping hgrouping _), flatCalls_concat, hgrouping,
        if_pos rfl, ih]
    | false =>
      rw [if_neg Bool.false_ne_true, goodCalls_concat, ih, declaredBy_flatCalls]
      split_ifs
      · rfl
      · rw [flatCalls_concat, hgrouping, if_neg Bool.false_ne_true]

theorem allGood_flatCalls_iff : AllGood (flatCalls calls) ↔ AllGood calls := by
  induction calls using List.reverseRecOn with
  | nil => rfl
  | append_singleton calls call ih =>
    rw [flatCalls_concat, allGood_concat_iff]
    cases hgrouping : call.isGrouping with
    | true =>
      rw [if_pos rfl, ih]
      exact (and_iff_left (call.not_isBad_of_isGrouping hgrouping _)).symm
    | false =>
      rw [if_neg Bool.false_ne_true, allGood_concat_iff, ih, goodCalls_flatCalls,
        declaredBy_flatCalls]

/-- Calls that differ only in their groups give programs with the same operations. -/
theorem AllGood.exists_program_of_flatCalls (h : AllGood calls)
    (hflat : flatCalls calls' = flatCalls calls) (name : String) : ∃ p, Program.ofCalls name calls' = .ok p ∧
      p.unrolled = calls.filterMap (Call.operation? (quantumOf calls)) := by
  have hgood : AllGood calls' := by rwa [← allGood_flatCalls_iff, hflat, allGood_flatCalls_iff]
  obtain ⟨p, hp, -, -, hunrolled⟩ := hgood.exists_program name
  refine ⟨p, hp, ?_⟩
  rw [hunrolled, ← quantumOf_flatCalls calls', ← filterMap_operation?_flatCalls, hflat,
    quantumOf_flatCalls, filterMap_operation?_flatCalls]

theorem Key.ofProgram_congr {p q : Program} (h : p.unrolled = q.unrolled) :
    Key.ofProgram p = Key.ofProgram q := by
  rw [ofProgram, ofProgram, Program.shapes, Program.shapes, h]

theorem Mapping.build_congr {p q : Program} (h : p.unrolled = q.unrolled) (slot : ℕ) (sub : SubJob) :
    build slot p sub = build slot q sub := by
  rw [build, build, h]

/-- Good calls give a program that is the calls written out, with an end for each group.  Its
operations are those of the calls, and neither they nor its key and its mappings depend on the
groups. -/
theorem program_is_calls_written_out (calls : List Call) (h : AllGood calls) (name : String) :
    ∃ p, Program.ofCalls name calls = .ok p ∧
      p.tokens = writtenCalls (quantumOf calls) [] calls ∧
      p.unrolled = calls.filterMap (Call.operation? (quantumOf calls)) ∧
      ∀ (name' : String) (calls' : List Call), flatCalls calls' = flatCalls calls →
        ∃ p', Program.ofCalls name' calls' = .ok p' ∧ p'.unrolled = p.unrolled ∧
          Key.ofProgram p' = Key.ofProgram p ∧
          ∀ slot sub, Mapping.build slot p' sub = Mapping.build slot p sub := by
  obtain ⟨p, hp, -, htokens, hunrolled⟩ := h.exists_program name
  refine ⟨p, hp, htokens, hunrolled, fun name' calls' hflat => ?_⟩
  obtain ⟨p', hp', hunrolled'⟩ := h.exists_program_of_flatCalls hflat name'
  have hsame : p'.unrolled = p.unrolled := hunrolled'.trans hunrolled.symm
  exact ⟨p', hp', hsame, Key.ofProgram_congr hsame, Mapping.build_congr hsame⟩

namespace Example

/-- An end with nothing open, and a group that is never closed around one that is. -/
def groupedCalls : List Call :=
  [.register "q" 2, .closes, .opens "outer", .op .h [("q", 0)] [], .classical "c" 1, .opens "inner",
    .op .measure [("q", 1), ("c", 0)] [], .closes, .op .rz [("q", 1)] [.int 1]]

/-- The stray end is left out, and the open group is closed.  Without any groups the operations are
the same. -/
theorem groupedCalls_written_out :
    AllGood groupedCalls ∧ flatCalls (flatCalls groupedCalls) = flatCalls groupedCalls ∧
    ∃ p p', Program.ofCalls "grouped" groupedCalls = .ok p ∧
      p.tokens = [.opens "outer", .op ⟨.h, [0], []⟩, .opens "inner", .op ⟨.measure, [1], []⟩,
        .closes "inner", .op ⟨.rz, [1], [.int 1]⟩, .closes "outer"] ∧
      Program.ofCalls "flat" (flatCalls groupedCalls) = .ok p' ∧ p'.unrolled = p.unrolled := by
  have hgood : AllGood groupedCalls := by decide
  have hflat : flatCalls (flatCalls groupedCalls) = flatCalls groupedCalls := by decide
  obtain ⟨p, hp, htokens, -, hgroups⟩ := program_is_calls_written_out groupedCalls hgood "grouped"
  obtain ⟨p', hp', hunrolled, -⟩ := hgroups "flat" (flatCalls groupedCalls) hflat
  exact ⟨hgood, hflat, p, p', hp, htokens.trans (by decide), hp', hunrolled⟩

end Example

end CircuitCache
