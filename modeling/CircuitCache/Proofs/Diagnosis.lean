import Mathlib
import CircuitCache.Proofs.Matching
import CircuitCache.Proofs.Queues

/-!
# Why a mapping cannot be built

The `k`-th instruction of a signature is meant for the `k`-th operation of it (`IsPaired`).  An
instruction is bad if there is no such operation, or if that has another number of parameters.  When
no mapping can be built, the error is about the first bad instruction, or if there is none, about the
first operation that no instruction is meant for (`IsDiagnosis`).
-/

namespace CircuitCache

open Mapping

variable {slot : ℕ} {p : Program} {sub : SubJob}

/-- The operations of a signature in order, with their positions. -/
def Program.ofSignature (p : Program) (s : Signature) : List Waiting :=
  p.unrolled.zipIdx.filter fun w => w.1.signature = s

/-- How often a signature occurs among the first instructions. -/
def SubJob.occurrences (sub : SubJob) (count : ℕ) (s : Signature) : ℕ :=
  (sub.instructions.take count).countP fun x => x.signature = s

/-- The instruction at position `i` is the `k`-th of its signature, and this is the `k`-th operation
of that signature. -/
def IsPaired (p : Program) (sub : SubJob) (i : ℕ) (x : Instruction) (w : Waiting) : Prop :=
  sub.instructions[i]? = some x ∧
    (p.ofSignature x.signature)[sub.occurrences i x.signature]? = some w

/-- Up to the instruction at position `i`, its signature occurs more often than in the program. -/
def IsSurplus (p : Program) (sub : SubJob) (i : ℕ) (x : Instruction) : Prop :=
  sub.instructions[i]? = some x ∧
    p.unrolled.countP (fun op => op.signature = x.signature) < sub.occurrences (i + 1) x.signature

/-- The instruction at position `i` is paired with an operation with another number of parameters. -/
def IsMisfit (p : Program) (sub : SubJob) (i : ℕ) (x : Instruction) (w : Waiting) : Prop :=
  IsPaired p sub i x w ∧ w.1.params.length ≠ x.params.length

/-- The instruction at position `i` has no operation to go with, or one that it does not fit. -/
def IsBad (p : Program) (sub : SubJob) (i : ℕ) : Prop :=
  (∃ x, IsSurplus p sub i x) ∨ ∃ x w, IsMisfit p sub i x w

/-- Some instruction is paired with the operation at position `b`. -/
def IsClaimed (p : Program) (sub : SubJob) (b : ℕ) : Prop :=
  ∃ i x w, IsPaired p sub i x w ∧ w.2 = b

/-- The error about the first bad instruction, or about the first operation that is not claimed. -/
inductive IsDiagnosis (slot : ℕ) (p : Program) (sub : SubJob) : CacheError → Prop
  | extra {i : ℕ} {x : Instruction} (h : IsSurplus p sub i x) (hfirst : ∀ j < i, ¬IsBad p sub j) :
    IsDiagnosis slot p sub (.structuralMismatch slot (.extraInstruction x.signature i))
  | arity {i : ℕ} {x : Instruction} {w : Waiting} (h : IsMisfit p sub i x w)
    (hfirst : ∀ j < i, ¬IsBad p sub j) :
    IsDiagnosis slot p sub
      (.arityMismatch slot i x.signature x.params.length w.1.params.length)
  | missing {b : ℕ} {op : Operation} (hgood : ∀ i, ¬IsBad p sub i)
    (hop : p.unrolled[b]? = some op) (h : ¬IsClaimed p sub b)
    (hfirst : ∀ c < b, IsClaimed p sub c) :
    IsDiagnosis slot p sub (.structuralMismatch slot (.missingInstruction op.signature b))

/-! ## One diagnosis -/

theorem length_ofSignature (p : Program) (s : Signature) :
    (p.ofSignature s).length = p.unrolled.countP fun op => op.signature = s := by
  calc (p.ofSignature s).length
      = p.unrolled.zipIdx.countP ((fun op => decide (op.signature = s)) ∘ Prod.fst) :=
        (List.countP_eq_length_filter ..).symm
    _ = (p.unrolled.zipIdx.map Prod.fst).countP fun op => op.signature = s := List.countP_map.symm
    _ = p.unrolled.countP fun op => op.signature = s := by rw [List.zipIdx_map_fst]

theorem occurrences_succ {i : ℕ} {x : Instruction} (hx : sub.instructions[i]? = some x)
    (s : Signature) :
    sub.occurrences (i + 1) s = sub.occurrences i s + if x.signature = s then 1 else 0 := by
  rw [SubJob.occurrences, List.take_add_one, hx, Option.toList_some, List.countP_append,
    List.countP_singleton, SubJob.occurrences]
  simp

/-- An instruction is paired or surplus, not both. -/
theorem IsPaired.not_isSurplus {i : ℕ} {x y : Instruction} {w : Waiting}
    (h : IsPaired p sub i x w) : ¬IsSurplus p sub i y := by
  rintro ⟨hy, hmore⟩
  obtain ⟨hx, hw⟩ := h
  obtain rfl := Option.some.inj (hx.symm.trans hy)
  have hlt := (List.getElem?_eq_some_iff.1 hw).1
  rw [length_ofSignature] at hlt
  rw [occurrences_succ hx, if_pos rfl] at hmore
  omega

/-- The first of its kind is found once. -/
theorem eq_of_first {P : ℕ → Prop} {i j : ℕ} (hi : P i) (hj : P j) (hi' : ∀ k < i, ¬P k)
    (hj' : ∀ k < j, ¬P k) : i = j :=
  le_antisymm (not_lt.1 fun h => hi' j h hj) (not_lt.1 fun h => hj' i h hi)

theorem IsDiagnosis.unique {e e' : CacheError} (h : IsDiagnosis slot p sub e)
    (h' : IsDiagnosis slot p sub e') : e = e' := by
  cases h with
  | extra h hfirst =>
    cases h' with
    | extra h' hfirst' =>
      obtain rfl := eq_of_first (.inl ⟨_, h⟩) (.inl ⟨_, h'⟩) hfirst hfirst'
      rw [Option.some.inj (h.1.symm.trans h'.1)]
    | arity h' hfirst' =>
      obtain rfl := eq_of_first (.inl ⟨_, h⟩) (.inr ⟨_, _, h'⟩) hfirst hfirst'
      exact absurd h h'.1.not_isSurplus
    | missing hgood' => exact absurd (.inl ⟨_, h⟩) (hgood' _)
  | arity h hfirst =>
    cases h' with
    | extra h' hfirst' =>
      obtain rfl := eq_of_first (.inr ⟨_, _, h⟩) (.inl ⟨_, h'⟩) hfirst hfirst'
      exact absurd h' h.1.not_isSurplus
    | arity h' hfirst' =>
      obtain rfl := eq_of_first (.inr ⟨_, _, h⟩) (.inr ⟨_, _, h'⟩) hfirst hfirst'
      obtain rfl := Option.some.inj (h.1.1.symm.trans h'.1.1)
      rw [Option.some.inj (h.1.2.symm.trans h'.1.2)]
    | missing hgood' => exact absurd (.inr ⟨_, _, h⟩) (hgood' _)
  | missing hgood hop h hfirst =>
    cases h' with
    | extra h' => exact absurd (.inl ⟨_, h'⟩) (hgood _)
    | arity h' => exact absurd (.inr ⟨_, _, h'⟩) (hgood _)
    | missing hgood' hop' h' hfirst' =>
      obtain rfl := eq_of_first h h' (fun c hc => not_not.2 (hfirst c hc))
        fun c hc => not_not.2 (hfirst' c hc)
      rw [Option.some.inj (hop.symm.trans hop')]

theorem IsDiagnosis.eq_iff {e e' : CacheError} (h : IsDiagnosis slot p sub e) :
    e = e' ↔ IsDiagnosis slot p sub e' :=
  ⟨fun heq => heq ▸ h, h.unique⟩

/-! ## What waits -/

/-- After the first instructions, these operations wait: of each signature those that come after as
many as there were instructions. -/
structure Waits (p : Program) (sub : SubJob) (count : ℕ) (waiting : List Waiting) : Prop where
  sorted : waiting.Pairwise fun v w => v.2 < w.2
  filter : ∀ s, (waiting.filter fun w => w.1.signature = s) =
    (p.ofSignature s).drop (sub.occurrences count s)

namespace Waits

variable {count : ℕ} {waiting others : List Waiting} {w : Waiting} {x : Instruction}

theorem zero (p : Program) (sub : SubJob) : Waits p sub 0 p.unrolled.zipIdx :=
  ⟨p.pairwise_zipIdx, fun s => by simp [SubJob.occurrences, Program.ofSignature]⟩

/-- An instruction without a claim is surplus. -/
theorem isSurplus (h : Waits p sub count waiting) (hx : sub.instructions[count]? = some x)
    (hclaim : claim x.signature waiting = none) : IsSurplus p sub count x := by
  have hdrop := h.filter x.signature
  rw [filter_eq_nil_of_claim hclaim, eq_comm, List.drop_eq_nil_iff, length_ofSignature] at hdrop
  refine ⟨hx, ?_⟩
  rw [occurrences_succ hx, if_pos rfl]
  omega

/-- What an instruction claims is the operation it is paired with. -/
theorem isPaired (h : Waits p sub count waiting) (hx : sub.instructions[count]? = some x)
    (hclaim : claim x.signature waiting = some (w, others)) : IsPaired p sub count x w := by
  have hdrop := h.filter x.signature
  rw [(filter_of_claim hclaim).1] at hdrop
  refine ⟨hx, ?_⟩
  rw [← List.head?_drop, ← hdrop, List.head?_cons]

theorem succ (h : Waits p sub count waiting) (hx : sub.instructions[count]? = some x)
    (hclaim : claim x.signature waiting = some (w, others)) : Waits p sub (count + 1) others := by
  obtain ⟨hsame, hother⟩ := filter_of_claim hclaim
  refine ⟨h.sorted.sublist (sublist_of_claim hclaim), fun s => ?_⟩
  rw [occurrences_succ hx]
  by_cases hs : x.signature = s
  · subst hs
    have hdrop := h.filter x.signature
    rw [hsame] at hdrop
    rw [if_pos rfl, ← List.drop_drop, ← hdrop, List.drop_one, List.tail_cons]
  · rw [if_neg hs, add_zero, hother s (Ne.symm hs), h.filter s]

theorem mem_zipIdx (h : Waits p sub count waiting) (hw : w ∈ waiting) :
    w ∈ p.unrolled.zipIdx := by
  have hmem : w ∈ waiting.filter fun v => v.1.signature = w.1.signature :=
    List.mem_filter.2 ⟨hw, decide_eq_true rfl⟩
  rw [h.filter] at hmem
  exact List.mem_of_mem_filter (List.mem_of_mem_drop hmem)

end Waits

theorem occurrences_mono (sub : SubJob) {i j : ℕ} (h : i ≤ j) (s : Signature) :
    sub.occurrences i s ≤ sub.occurrences j s :=
  (List.take_sublist_take_left h).countP_le

/-- Each of the occurrences that were counted is that of an instruction. -/
theorem exists_occurrence (sub : SubJob) {count k : ℕ} {s : Signature}
    (h : k < sub.occurrences count s) :
    ∃ i x, sub.instructions[i]? = some x ∧ x.signature = s ∧ sub.occurrences i s = k := by
  induction count with
  | zero => simp [SubJob.occurrences] at h
  | succ count ih =>
    rcases hx : sub.instructions[count]? with _ | x
    · rw [SubJob.occurrences, List.take_add_one, hx, Option.toList_none, List.append_nil] at h
      exact ih h
    · by_cases hk : k < sub.occurrences count s
      · exact ih hk
      · rw [occurrences_succ hx] at h
        by_cases hs : x.signature = s
        · rw [if_pos hs] at h
          exact ⟨count, x, hx, hs, by omega⟩
        · rw [if_neg hs] at h
          exact absurd h hk

/-- After all instructions, what waits is what has not been claimed. -/
theorem Waits.isClaimed_iff {count : ℕ} {waiting : List Waiting} (h : Waits p sub count waiting)
    (hend : sub.instructions.length ≤ count) {w : Waiting} (hw : w ∈ p.unrolled.zipIdx) :
    IsClaimed p sub w.2 ↔ w ∉ waiting := by
  have hmem : w ∈ p.ofSignature w.1.signature := List.mem_filter.2 ⟨hw, decide_eq_true rfl⟩
  have hwaiting : w ∈ waiting ↔
      w ∈ (p.ofSignature w.1.signature).drop (sub.occurrences count w.1.signature) := by
    rw [← h.filter, List.mem_filter]
    simp
  rw [hwaiting]
  constructor
  · rintro ⟨i, x, v, ⟨hx, hv⟩, hposition⟩ hdrop
    have hvmem := List.mem_filter.1 (List.mem_of_getElem? hv)
    have hop := List.mem_zipIdx_iff_getElem?.1 hvmem.1
    rw [hposition, List.mem_zipIdx_iff_getElem?.1 hw] at hop
    have hvw : v = w := Prod.ext (Option.some.inj hop).symm hposition
    subst hvw
    have hsignature : v.1.signature = x.signature := of_decide_eq_true hvmem.2
    -- It stands among the first, so it cannot stand among the others as well.
    have hnodup : (p.ofSignature x.signature).Nodup :=
      (p.pairwise_zipIdx.imp fun h heq => h.ne (congrArg Prod.snd heq)).filter _
    have hi : i < count := (List.getElem?_eq_some_iff.1 hx).1.trans_le hend
    have hle := occurrences_mono sub (Nat.succ_le_of_lt hi) x.signature
    rw [hsignature] at hdrop
    refine List.disjoint_take_drop hnodup hle ?_ hdrop
    rw [occurrences_succ hx, if_pos rfl, List.mem_take_iff_getElem]
    obtain ⟨hlt, heq⟩ := List.getElem?_eq_some_iff.1 hv
    exact ⟨_, by omega, heq⟩
  · intro hdrop
    rw [← List.take_append_drop (sub.occurrences count w.1.signature) (p.ofSignature _),
      List.mem_append] at hmem
    obtain ⟨k, hk, heq⟩ := List.mem_take_iff_getElem.1 (hmem.resolve_right hdrop)
    obtain ⟨i, x, hx, hsignature, hoccurrences⟩ :=
      exists_occurrence sub (hk.trans_le (min_le_left _ _))
    refine ⟨i, x, w, ⟨hx, ?_⟩, rfl⟩
    rw [hsignature, hoccurrences]
    exact List.getElem?_eq_some_iff.2 ⟨_, heq⟩

/-! ## The error -/

theorem IsBad.lt_length {i : ℕ} (h : IsBad p sub i) : i < sub.instructions.length := by
  rcases h with ⟨x, hx, -⟩ | ⟨x, w, ⟨hx, -⟩, -⟩
  · exact (List.getElem?_eq_some_iff.1 hx).1
  · exact (List.getElem?_eq_some_iff.1 hx).1

/-- An instruction that is paired with an operation with as many parameters is not bad. -/
theorem IsPaired.not_isBad {i : ℕ} {x : Instruction} {w : Waiting} (h : IsPaired p sub i x w)
    (harity : w.1.params.length = x.params.length) : ¬IsBad p sub i := by
  rintro (⟨y, hsurplus⟩ | ⟨y, v, ⟨hy, hv⟩, hmisfit⟩)
  · exact h.not_isSurplus hsurplus
  · obtain rfl := Option.some.inj (h.1.symm.trans hy)
    obtain rfl := Option.some.inj (h.2.symm.trans hv)
    exact hmisfit harity

/-- When no instruction is bad and nothing is left waiting, there is no error. -/
theorem Waits.not_isDiagnosis {count : ℕ} {e : CacheError} (h : Waits p sub count [])
    (hend : sub.instructions.length ≤ count) (hgood : ∀ i, ¬IsBad p sub i) :
    ¬IsDiagnosis slot p sub e := by
  intro hdiagnosis
  cases hdiagnosis with
  | extra hsurplus => exact hgood _ (.inl ⟨_, hsurplus⟩)
  | arity hmisfit => exact hgood _ (.inr ⟨_, _, hmisfit⟩)
  | missing _ hop hunclaimed =>
    have hmem := List.mk_mem_zipIdx_iff_getElem?.2 hop
    exact hunclaimed ((h.isClaimed_iff hend hmem).2 List.not_mem_nil)

/-- When no instruction is bad, the first operation that is left waiting is missing. -/
theorem Waits.isDiagnosis_missing {count index : ℕ} {op : Operation} {others : List Waiting}
    (h : Waits p sub count ((op, index) :: others)) (hend : sub.instructions.length ≤ count)
    (hgood : ∀ i, ¬IsBad p sub i) :
    IsDiagnosis slot p sub (.structuralMismatch slot (.missingInstruction op.signature index)) := by
  have hmem := h.mem_zipIdx List.mem_cons_self
  have hop := List.mem_zipIdx_iff_getElem?.1 hmem
  refine .missing hgood hop ?_ fun c hc => ?_
  · exact fun hclaimed => (h.isClaimed_iff hend hmem).1 hclaimed List.mem_cons_self
  · have hlt : c < p.unrolled.length := hc.trans (List.getElem?_eq_some_iff.1 hop).1
    have hcmem : (p.unrolled[c], c) ∈ p.unrolled.zipIdx :=
      List.mem_zipIdx_iff_getElem?.2 (List.getElem?_eq_getElem hlt)
    refine (h.isClaimed_iff hend hcmem).2 fun hwaits => ?_
    -- Whatever else waits comes later.
    rcases List.mem_cons.1 hwaits with heq | hwaits
    · exact hc.ne (congrArg Prod.snd heq)
    · exact hc.asymm ((List.pairwise_cons.1 h.sorted).1 _ hwaits)

/-- When all instructions before are good, pairing up the others fails with the diagnosis. -/
theorem pairUp_eq_error_iff {count : ℕ} {waiting : List Waiting} {rest : List Instruction}
    {e : CacheError} (h : Waits p sub count waiting) (hrest : sub.instructions.drop count = rest)
    (hgood : ∀ j < count, ¬IsBad p sub j) :
    pairUp slot waiting count rest = .error e ↔ IsDiagnosis slot p sub e := by
  induction rest generalizing count waiting with
  | nil =>
    have hend : sub.instructions.length ≤ count := List.drop_eq_nil_iff.1 hrest
    have hallGood : ∀ i, ¬IsBad p sub i := fun i hbad =>
      hgood i (hbad.lt_length.trans_le hend) hbad
    cases waiting with
    | nil =>
      rw [pairUp]
      exact iff_of_false (by simp) (h.not_isDiagnosis hend hallGood)
    | cons w others =>
      rw [pairUp, Except.error.injEq]
      exact (h.isDiagnosis_missing hend hallGood).eq_iff
  | cons x rest ih =>
    have hx : sub.instructions[count]? = some x := by
      rw [← List.head?_drop, hrest, List.head?_cons]
    have hnext : sub.instructions.drop (count + 1) = rest := by
      rw [← List.drop_drop, hrest, List.drop_one, List.tail_cons]
    rw [pairUp]
    rcases hclaim : claim x.signature waiting with _ | ⟨⟨op, index⟩, others⟩
    · simp only [Except.error.injEq]
      exact IsDiagnosis.eq_iff (.extra (h.isSurplus hx hclaim) hgood)
    · have hpaired := h.isPaired hx hclaim
      by_cases harity : op.params.length = x.params.length
      · have hgood' : ∀ j < count + 1, ¬IsBad p sub j := by
          intro j hj
          rcases Nat.lt_succ_iff_lt_or_eq.1 hj with hj | rfl
          · exact hgood j hj
          · exact hpaired.not_isBad harity
        rw [← ih (h.succ hx hclaim) hnext hgood']
        simp only [if_neg (not_not.2 harity)]
        rcases pairUp slot others (count + 1) rest with e' | entries <;> simp
      · simp only [if_pos harity, Except.error.injEq]
        exact IsDiagnosis.eq_iff (.arity ⟨hpaired, harity⟩ hgood)

/-- When no mapping can be built, the error is about the first bad instruction, or if there is none,
about the first operation that no instruction is paired with.  That does not depend on the order in
which operations that wait are gone through by signature. -/
theorem build_eq_error_iff_isDiagnosis (slot : ℕ) (p : Program) (sub : SubJob) :
    (∀ e, build slot p sub = .error e ↔ IsDiagnosis slot p sub e) ∧
    ∀ keys : List Signature, (∀ op ∈ p.unrolled, op.signature ∈ keys) →
      buildQueued keys slot p sub = build slot p sub := by
  refine ⟨fun e => ?_, fun keys hkeys => buildQueued_eq_build hkeys⟩
  rw [← pairUp_eq_error_iff (.zero p sub) List.drop_zero fun j hj => absurd hj j.not_lt_zero, build]
  rcases pairUp slot p.unrolled.zipIdx 0 sub.instructions with e' | entries <;> simp

namespace Example

/-- The second instruction has a parameter too many, and the third is not in the program. -/
def frayedJob : SubJob :=
  ⟨"weave", [⟨.rx, [1], [.zero]⟩, ⟨.rx, [0], [.zero, .zero]⟩, ⟨.x, [0], []⟩], none⟩

/-- Only the rotation of the other address is left. -/
def looseJob : SubJob := ⟨"weave", [⟨.rx, [1], [.zero]⟩], none⟩

/-- The first fault is reported, and the first of the operations that are left over, though its queue
is gone through last. -/
theorem diagnosis_weave :
    IsDiagnosis 0 weave frayedJob (.arityMismatch 0 1 ⟨.rx, [0]⟩ 2 1) ∧
    IsDiagnosis 0 weave looseJob (.structuralMismatch 0 (.missingInstruction ⟨.rx, [0]⟩ 0)) ∧
    (∀ op ∈ weave.unrolled, op.signature ∈ [⟨.h, [0]⟩, ⟨.rx, [1]⟩, (⟨.rx, [0]⟩ : Signature)]) ∧
    buildQueued [⟨.h, [0]⟩, ⟨.rx, [1]⟩, ⟨.rx, [0]⟩] 0 weave looseJob =
      .error (.structuralMismatch 0 (.missingInstruction ⟨.rx, [0]⟩ 0)) := by
  have hfrayed : build 0 weave frayedJob = .error (.arityMismatch 0 1 ⟨.rx, [0]⟩ 2 1) := by
    decide +kernel
  have hloose : build 0 weave looseJob =
      .error (.structuralMismatch 0 (.missingInstruction ⟨.rx, [0]⟩ 0)) := by
    decide +kernel
  have hkeys : ∀ op ∈ weave.unrolled,
      op.signature ∈ [⟨.h, [0]⟩, ⟨.rx, [1]⟩, (⟨.rx, [0]⟩ : Signature)] := by
    decide +kernel
  exact ⟨((build_eq_error_iff_isDiagnosis 0 weave frayedJob).1 _).1 hfrayed,
    ((build_eq_error_iff_isDiagnosis 0 weave looseJob).1 _).1 hloose, hkeys,
    ((build_eq_error_iff_isDiagnosis 0 weave looseJob).2 _ hkeys).trans hloose⟩

end Example

end CircuitCache
