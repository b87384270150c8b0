import Mathlib
import CircuitCache.Proofs.Pairing

/-!
# Queues by signature

The operations that wait can be kept in one queue for each signature instead of one list for all:
an instruction takes the front of the queue of its signature, and what is left waiting in the end is
looked for at the fronts of all queues.  It is the same operation in whatever order the queues are
gone through (`Mapping.buildQueued_eq_build`).
-/

namespace CircuitCache

namespace Mapping

/-- For each signature the operations that wait, the first one in front. -/
abbrev Queues := Signature → List Waiting

namespace Queues

/-- An operation comes to wait at the end of the queue of its signature. -/
def push (queues : Queues) (w : Waiting) : Queues :=
  Function.update queues w.1.signature (queues w.1.signature ++ [w])

/-- All operations wait, each in the queue of its signature. -/
def ofOperations (ops : List Operation) : Queues := ops.zipIdx.foldl push fun _ => []

/-- The least position at the front of a queue, and the signature of that queue, when the queues are
gone through in this order of their signatures. -/
def leastFront? (keys : List Signature) (queues : Queues) : Option (ℕ × Signature) :=
  (keys.filterMap fun s => (queues s).head?.map fun w => (w.2, s)).argmin Prod.fst

/-- The queues hold what waits. -/
def Hold (queues : Queues) (waiting : List Waiting) : Prop :=
  ∀ s, queues s = waiting.filter fun w => w.1.signature = s

end Queues

/-- Pairing up with queues: each instruction takes the front of the queue of its signature. -/
def pairQueued (slot : ℕ) (keys : List Signature) :
    (queues : Queues) → (position : ℕ) → List Instruction → Except CacheError (List Entry)
  | queues, _, [] =>
    match queues.leastFront? keys with
    | none => .ok []
    | some (index, s) => .error (.structuralMismatch slot (.missingInstruction s index))
  | queues, position, i :: rest =>
    match queues i.signature with
    | [] => .error (.structuralMismatch slot (.extraInstruction i.signature position))
    | (op, index) :: others =>
      if op.params.length ≠ i.params.length then
        .error (.arityMismatch slot position i.signature i.params.length op.params.length)
      else
        match pairQueued slot keys (Function.update queues i.signature others) (position + 1) rest with
        | .error e => .error e
        | .ok entries => .ok (if i.isPatchable then ⟨position, index⟩ :: entries else entries)

/-- Building with queues that are gone through in a given order of their signatures. -/
def buildQueued (keys : List Signature) (slot : ℕ) (p : Program) (sub : SubJob) :
    Except CacheError Mapping :=
  match pairQueued slot keys (.ofOperations p.unrolled) 0 sub.instructions with
  | .error e => .error e
  | .ok entries => .ok ⟨entries⟩

/-- A claim takes the first waiting operation of the signature and leaves the others of every
signature in order. -/
theorem filter_of_claim {signature : Signature} {waiting others : List Waiting} {w : Waiting}
    (h : claim signature waiting = some (w, others)) :
    (waiting.filter fun v => v.1.signature = signature) =
        w :: others.filter (fun v => v.1.signature = signature) ∧
      ∀ s ≠ signature, (others.filter fun v => v.1.signature = s) =
        waiting.filter fun v => v.1.signature = s := by
  obtain ⟨before, after, rfl, rfl, hsignature, hbefore⟩ := claim_eq_some_iff.1 h
  have hnone : (before.filter fun v => v.1.signature = signature) = [] :=
    List.filter_eq_nil_iff.2 fun v hv => by simpa using hbefore v hv
  constructor
  · simp [hnone, hsignature]
  · intro s hs
    simp [hsignature, hs.symm]

theorem filter_eq_nil_of_claim {signature : Signature} {waiting : List Waiting}
    (h : claim signature waiting = none) :
    (waiting.filter fun v => v.1.signature = signature) = [] :=
  List.filter_eq_nil_iff.2 fun v hv => by simpa using claim_eq_none_iff.1 h v hv

namespace Queues

variable {queues : Queues} {waiting others : List Waiting} {w : Waiting} {keys : List Signature}

theorem Hold.push (h : queues.Hold waiting) (w : Waiting) : (queues.push w).Hold (waiting ++ [w]) := by
  intro s
  rw [Queues.push, List.filter_append, Function.update_apply]
  split
  · next hs =>
    subst hs
    simp [h w.1.signature]
  · next hs => simp [h s, Ne.symm hs]

theorem hold_ofOperations (ops : List Operation) : (ofOperations ops).Hold ops.zipIdx := by
  rw [ofOperations]
  generalize ops.zipIdx = waiting
  induction waiting using List.reverseRecOn with
  | nil => exact fun s => rfl
  | append_singleton waiting w ih =>
    rw [List.foldl_append]
    exact ih.push w

/-- The queues after a claim. -/
theorem Hold.claim {signature : Signature} (h : queues.Hold waiting)
    (hclaim : claim signature waiting = some (w, others)) :
    queues signature = w :: others.filter (fun v => v.1.signature = signature) ∧
      Hold (Function.update queues signature (others.filter fun v => v.1.signature = signature))
        others := by
  obtain ⟨hsame, hother⟩ := filter_of_claim hclaim
  refine ⟨(h signature).trans hsame, fun s => ?_⟩
  rw [Function.update_apply]
  split
  · next hs => rw [hs]
  · next hs => rw [h s, hother s hs]

/-- The least front of all queues is the first operation that waits, in whatever order the queues
are gone through. -/
theorem Hold.leastFront? (h : queues.Hold waiting)
    (hsorted : waiting.Pairwise fun v w => v.2 < w.2)
    (hkeys : ∀ w ∈ waiting, w.1.signature ∈ keys) :
    queues.leastFront? keys = waiting.head?.map fun w => (w.2, w.1.signature) := by
  have hfront {front : ℕ × Signature}
      (hmem : front ∈ keys.filterMap fun s => (queues s).head?.map fun w => (w.2, s)) :
      ∃ w ∈ waiting, front = (w.2, w.1.signature) := by
    obtain ⟨s, -, hs⟩ := List.mem_filterMap.1 hmem
    obtain ⟨w, hw, rfl⟩ := Option.map_eq_some_iff.1 hs
    rw [h s] at hw
    obtain ⟨hw, hsignature⟩ := List.mem_filter.1 (List.mem_of_mem_head? hw)
    exact ⟨w, hw, by rw [of_decide_eq_true hsignature]⟩
  cases waiting with
  | nil =>
    rw [List.head?_nil, Option.map_none, Queues.leastFront?, List.argmin_eq_none,
      List.eq_nil_iff_forall_not_mem]
    intro front hmem
    obtain ⟨w, hw, -⟩ := hfront hmem
    exact List.not_mem_nil hw
  | cons first rest =>
    have hleast := (List.pairwise_cons.1 hsorted).1
    have hmem : (first.2, first.1.signature) ∈
        keys.filterMap fun s => (queues s).head?.map fun w => (w.2, s) := by
      refine List.mem_filterMap.2 ⟨_, hkeys first List.mem_cons_self, ?_⟩
      rw [h, List.filter_cons_of_pos (by simp)]
      rfl
    rcases hargmin : queues.leastFront? keys with _ | front
    · rw [Queues.leastFront?, List.argmin_eq_none] at hargmin
      exact absurd (hargmin ▸ hmem) List.not_mem_nil
    · rw [Queues.leastFront?] at hargmin
      obtain ⟨w, hw, rfl⟩ := hfront (List.argmin_mem hargmin)
      have hle : w.2 ≤ first.2 := List.le_of_mem_argmin (f := Prod.fst) hmem hargmin
      rcases List.mem_cons.1 hw with rfl | hw
      · rfl
      · exact absurd (hleast w hw) hle.not_gt

end Queues

/-- Queues and one list for all pair up the same way. -/
theorem pairQueued_eq_pairUp {slot position : ℕ} {keys : List Signature} {queues : Queues}
    {waiting : List Waiting} {is : List Instruction} (h : queues.Hold waiting)
    (hsorted : waiting.Pairwise fun v w => v.2 < w.2)
    (hkeys : ∀ w ∈ waiting, w.1.signature ∈ keys) :
    pairQueued slot keys queues position is = pairUp slot waiting position is := by
  induction is generalizing queues waiting position with
  | nil =>
    rw [pairQueued, h.leastFront? hsorted hkeys]
    cases waiting <;> rfl
  | cons i rest ih =>
    rw [pairQueued, pairUp]
    rcases hclaim : claim i.signature waiting with _ | ⟨⟨op, index⟩, others⟩
    · rw [h i.signature, filter_eq_nil_of_claim hclaim]
    · obtain ⟨hfront, hothers⟩ := h.claim hclaim
      have hsublist := sublist_of_claim hclaim
      have hrest := fun position => @ih position _ _ hothers (hsorted.sublist hsublist) fun w hw =>
        hkeys w (hsublist.subset hw)
      rw [hfront]
      rcases hpaired : pairUp slot others (position + 1) rest with e | entries
      · simp only [hrest, hpaired]
      · simp only [hrest, hpaired]

/-- A mapping, or the error, does not depend on the order in which queues are gone through. -/
theorem buildQueued_eq_build {keys : List Signature} {slot : ℕ} {p : Program} {sub : SubJob}
    (hkeys : ∀ op ∈ p.unrolled, op.signature ∈ keys) :
    buildQueued keys slot p sub = build slot p sub := by
  have hpair : pairQueued slot keys (Queues.ofOperations p.unrolled) 0 sub.instructions =
      pairUp slot p.unrolled.zipIdx 0 sub.instructions :=
    pairQueued_eq_pairUp (Queues.hold_ofOperations p.unrolled) p.pairwise_zipIdx fun w hw =>
      hkeys w.1 (List.fst_mem_of_mem_zipIdx hw)
  rw [buildQueued, build]
  rcases hpaired : pairUp slot p.unrolled.zipIdx 0 sub.instructions with e | entries
  · simp only [hpair, hpaired]
  · simp only [hpair, hpaired]

end Mapping

end CircuitCache
