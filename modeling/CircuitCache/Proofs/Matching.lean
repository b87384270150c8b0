import Mathlib
import CircuitCache.Proofs.Overwriting

/-!
# Matchings

A matching of a program with its compiled form is a bijection from the positions of the instructions
onto the positions of the operations that keeps signatures and numbers of parameters, and the order
where signatures are equal (`IsMatching`).  It is a pairing by another name, there is at most one, and
`Mapping.build` finds it whenever there is one: its mapping lists the instructions that carry
parameters with their operations.
-/

namespace CircuitCache

variable {p : Program} {sub : SubJob}

/-- Each instruction comes from an operation of its signature with as many parameters, every
operation is used once, and operations of equal signature stay in order. -/
structure IsMatching (p : Program) (sub : SubJob)
    (f : Fin sub.instructions.length ≃ Fin p.unrolled.length) : Prop where
  signature : ∀ i, sub.instructions[i].signature = p.unrolled[f i].signature
  arity : ∀ i, sub.instructions[i].params.length = p.unrolled[f i].params.length
  ordered : ∀ i j, i < j → sub.instructions[i].signature = sub.instructions[j].signature → f i < f j

/-- The instructions that carry parameters, each with its operation, in the order of the
instructions. -/
def Mapping.ofMatching (f : Fin sub.instructions.length ≃ Fin p.unrolled.length) : Mapping :=
  ⟨((List.finRange sub.instructions.length).filter fun i => sub.instructions[i].isPatchable).map
    fun i : Fin sub.instructions.length => ⟨i, f i⟩⟩

/-! ## Matchings and pairings -/

/-- The positions of the operations, in the order of the instructions. -/
def matchingOrder (f : Fin sub.instructions.length ≃ Fin p.unrolled.length) : List ℕ :=
  List.ofFn fun i => (f i : ℕ)

/-- An order of all operations is a bijection. -/
theorem exists_matchingOrder_eq {order : List ℕ}
    (hperm : order.Perm (List.range p.unrolled.length))
    (hlength : order.length = sub.instructions.length) :
    ∃ f : Fin sub.instructions.length ≃ Fin p.unrolled.length, order = matchingOrder f := by
  have hlt (i : Fin sub.instructions.length) : order[i] < p.unrolled.length :=
    List.mem_range.1 (hperm.mem_iff.1 (List.getElem_mem _))
  have hbijective : Function.Bijective fun i : Fin sub.instructions.length =>
      (⟨order[i], hlt i⟩ : Fin p.unrolled.length) := by
    constructor
    · intro i j hij
      have hnodup : order.Nodup := hperm.nodup_iff.2 List.nodup_range
      exact Fin.ext (hnodup.getElem_inj_iff.1 (congrArg Fin.val hij))
    · intro b
      obtain ⟨i, hi, hb⟩ := List.mem_iff_getElem.1 (hperm.mem_iff.2 (List.mem_range.2 b.isLt))
      exact ⟨⟨i, hlength ▸ hi⟩, Fin.ext hb⟩
  refine ⟨Equiv.ofBijective _ hbijective, List.ext_getElem (by simp [matchingOrder, hlength]) ?_⟩
  intro i hi hi'
  simp [matchingOrder]

theorem perm_matchingOrder (f : Fin sub.instructions.length ≃ Fin p.unrolled.length) :
    (matchingOrder f).Perm (List.range p.unrolled.length) := by
  have hnodup : (matchingOrder f).Nodup :=
    List.nodup_ofFn.2 (Fin.val_injective.comp f.injective)
  refine (List.perm_ext_iff_of_nodup hnodup List.nodup_range).2 fun b => ?_
  rw [matchingOrder, List.mem_ofFn, List.mem_range]
  constructor
  · rintro ⟨i, rfl⟩
    exact (f i).isLt
  · intro hb
    exact ⟨f.symm ⟨b, hb⟩, by simp⟩

/-- A matching, said of the shapes. -/
theorem isMatching_iff {f : Fin sub.instructions.length ≃ Fin p.unrolled.length} :
    IsMatching p sub f ↔ (∀ i, p.unrolled[f i].shape = sub.instructions[i].shape) ∧
      ∀ i j, i < j → p.unrolled[f i].signature = p.unrolled[f j].signature → f i < f j := by
  constructor
  · intro h
    refine ⟨fun i => ?_, fun i j hij hsignature => h.ordered i j hij ?_⟩
    · rw [Operation.shape, Instruction.shape, h.signature i, h.arity i]
    · rw [h.signature i, h.signature j, hsignature]
  · rintro ⟨hshape, hordered⟩
    have hsignature (i : Fin sub.instructions.length) :
        sub.instructions[i].signature = p.unrolled[f i].signature :=
      congrArg Shape.signature (hshape i).symm
    refine ⟨hsignature, fun i => congrArg Shape.arity (hshape i).symm, fun i j hij h => ?_⟩
    exact hordered i j hij ((hsignature i).symm.trans (h.trans (hsignature j)))

/-- The positions of the operations in a matching are a pairing, and the other way round. -/
theorem isPairing_matchingOrder_iff {f : Fin sub.instructions.length ≃ Fin p.unrolled.length} :
    IsPairing p.shapes sub.shapes (matchingOrder f) ↔ IsMatching p sub f := by
  have hsource (b : Fin p.unrolled.length) : p.shapes[(b : ℕ)]? = some p.unrolled[b].shape := by
    simp [Program.shapes]
  have htarget : sub.shapes = List.ofFn fun i => sub.instructions[i].shape :=
    (List.ofFn_getElem_eq_map sub.instructions Instruction.shape).symm
  have hshape : (matchingOrder f).map (p.shapes[·]?) = sub.shapes.map some ↔
      ∀ i, p.unrolled[f i].shape = sub.instructions[i].shape := by
    rw [htarget, matchingOrder, List.map_ofFn, List.map_ofFn, List.ofFn_inj, funext_iff]
    simp only [Function.comp_apply, hsource, Option.some_inj]
  have hordered : ((matchingOrder f).Pairwise fun a b =>
      p.shapes[a]?.map Shape.signature = p.shapes[b]?.map Shape.signature → a < b) ↔
      ∀ i j, i < j → p.unrolled[f i].signature = p.unrolled[f j].signature → f i < f j := by
    rw [matchingOrder, List.pairwise_ofFn]
    simp only [hsource, Option.map_some, Option.some_inj]
    rfl
  have hperm : (matchingOrder f).Perm (List.range p.shapes.length) := by
    rw [Program.shapes, List.length_map]
    exact perm_matchingOrder f
  rw [isMatching_iff, ← hshape, ← hordered]
  exact ⟨fun h => ⟨h.shape, h.ordered⟩, fun h => ⟨hperm, h.1, h.2⟩⟩

/-- Every pairing is a matching. -/
theorem IsPairing.exists_isMatching {order : List ℕ} (h : IsPairing p.shapes sub.shapes order) :
    ∃ f, IsMatching p sub f ∧ order = matchingOrder f := by
  have hperm := h.perm
  rw [Program.shapes, List.length_map] at hperm
  have hlength := h.length_eq
  rw [SubJob.shapes, List.length_map] at hlength
  obtain ⟨f, rfl⟩ := exists_matchingOrder_eq hperm hlength
  exact ⟨f, isPairing_matchingOrder_iff.1 h, rfl⟩

/-! ## Uniqueness -/

namespace Mapping

/-- Whatever is claimed can be claimed in one way only: each claim is the first operation of its
signature. -/
theorem Claims.unique {waiting c d : List Waiting} {target : List Shape}
    (hsorted : waiting.Pairwise fun v w => v.2 < w.2) (hc : Claims waiting target c)
    (hd : Claims waiting target d) : c = d := by
  induction target generalizing waiting c d with
  | nil => rw [List.map_eq_nil_iff.1 hc.shape, List.map_eq_nil_iff.1 hd.shape]
  | cons x target ih =>
    rcases hclaim : claim x.signature waiting with _ | ⟨w, others⟩
    · obtain ⟨v, rest, rfl, hv, -⟩ := List.map_eq_cons_iff.1 hc.shape
      exact absurd (congrArg Shape.signature hv)
        (claim_eq_none_iff.1 hclaim v (hc.perm.mem_iff.1 List.mem_cons_self))
    · have hothers := hsorted.sublist (sublist_of_claim hclaim)
      obtain ⟨before, after, rfl, rfl, hsignature, hbefore⟩ := claim_eq_some_iff.1 hclaim
      have hbefore : ∀ v ∈ before, v.1.signature ≠ w.1.signature := fun v hv h =>
        hbefore v hv (h.trans hsignature)
      obtain ⟨-, c', rfl, hc'⟩ := hc.uncons hsorted hbefore hsignature.symm
      obtain ⟨-, d', rfl, hd'⟩ := hd.uncons hsorted hbefore hsignature.symm
      rw [ih hothers hc' hd']

end Mapping

/-- There is at most one pairing. -/
theorem IsPairing.unique {target : List Shape} {order other : List ℕ}
    (h : IsPairing p.shapes target order) (h' : IsPairing p.shapes target other) :
    order = other := by
  have hlength : p.shapes.length = p.unrolled.length := by rw [Program.shapes, List.length_map]
  obtain ⟨claimed, hperm, rfl⟩ := Mapping.exists_claimed (hlength ▸ h.perm)
  obtain ⟨claimed', hperm', rfl⟩ := Mapping.exists_claimed (hlength ▸ h'.perm)
  rw [((Mapping.isPairing_iff_claims hperm).1 h).unique p.pairwise_zipIdx
    ((Mapping.isPairing_iff_claims hperm').1 h')]

theorem IsMatching.unique {f g : Fin sub.instructions.length ≃ Fin p.unrolled.length}
    (hf : IsMatching p sub f) (hg : IsMatching p sub g) : f = g := by
  have horder := (isPairing_matchingOrder_iff.2 hf).unique (isPairing_matchingOrder_iff.2 hg)
  rw [matchingOrder, matchingOrder, List.ofFn_inj] at horder
  exact Equiv.ext fun i => Fin.ext (congrFun horder i)

/-! ## Building -/

namespace Mapping

/-- The mapping of a pairing, read off the bijection. -/
theorem ofOrder_matchingOrder {f : Fin sub.instructions.length ≃ Fin p.unrolled.length}
    (h : IsMatching p sub f) : ofOrder p.shapes (matchingOrder f) = ofMatching f := by
  have hzip : (matchingOrder f).zipIdx =
      (List.finRange sub.instructions.length).map fun i => ((f i : ℕ), (i : ℕ)) := by
    refine List.ext_getElem (by simp [matchingOrder]) fun i hi hi' => ?_
    simp [matchingOrder]
  have hparameterized (i : Fin sub.instructions.length) :
      p.shapes[(f i : ℕ)]?.any Shape.isParameterized = sub.instructions[i].isPatchable := by
    have hsource : p.shapes[(f i : ℕ)]? = some p.unrolled[f i].shape := by simp [Program.shapes]
    rw [hsource, Option.any_some, (isMatching_iff.1 h).1 i, Instruction.isParameterized_shape]
  rw [ofOrder, ofMatching, hzip, List.filterMap_map, ← List.filterMap_eq_filter,
    List.map_filterMap]
  refine congrArg Mapping.mk (List.filterMap_congr fun i _ => ?_)
  simp only [Function.comp_apply, hparameterized, Option.guard]
  split <;> rfl

/-- A mapping can be built exactly when there is a matching, and is the one read off it. -/
theorem build_eq_ok_iff_isMatching {slot : ℕ} {m : Mapping} :
    build slot p sub = .ok m ↔ ∃ f, IsMatching p sub f ∧ m = ofMatching f := by
  rw [build_eq_ok_iff]
  constructor
  · rintro ⟨order, horder, rfl⟩
    obtain ⟨f, hf, rfl⟩ := horder.exists_isMatching
    exact ⟨f, hf, ofOrder_matchingOrder hf⟩
  · rintro ⟨f, hf, rfl⟩
    exact ⟨matchingOrder f, isPairing_matchingOrder_iff.2 hf, (ofOrder_matchingOrder hf).symm⟩

/-- The mapping of a pairing uses the operations with parameters, each once. -/
theorem perm_sources_ofOrder {target : List Shape} {order : List ℕ}
    (h : IsPairing p.shapes target order) :
    (ofOrder p.shapes order).sources.Perm p.parameterizedPositions := by
  refine (List.perm_ext_iff_of_nodup (nodup_sources_ofOrder p.shapes h.nodup)
    p.nodup_parameterizedPositions).2 fun b => ?_
  have hany : p.shapes[b]?.any Shape.isParameterized = true ↔ b ∈ p.parameterizedPositions := by
    rw [Program.mem_parameterizedPositions, Program.shapes, List.getElem?_map, Option.any_map,
      Option.any_eq_true]
    simp only [Operation.isParameterized_shape]
  rw [sources, List.mem_map, ← hany]
  constructor
  · rintro ⟨e, he, rfl⟩
    exact (mem_ofOrder.1 he).2
  · intro hb
    have hlt : b < p.shapes.length := by
      obtain ⟨x, hx, -⟩ := (Option.any_eq_true ..).1 hb
      exact (List.getElem?_eq_some_iff.1 hx).1
    obtain ⟨i, hi⟩ := List.mem_iff_getElem?.1 (h.perm.mem_iff.2 (List.mem_range.2 hlt))
    exact ⟨⟨i, b⟩, mem_ofOrder.2 ⟨hi, hb⟩, rfl⟩

/-- A mapping can be built exactly when there is a matching of the program with its compiled form.
There is one matching then, and the mapping lists its instructions with parameters in order, each
with its operation. So there is an entry for each instruction and for each operation with parameters,
and the mapping passes verification. -/
theorem exists_build_iff_isMatching (slot : ℕ) (p : Program) (sub : SubJob) :
    ((∃ m, build slot p sub = .ok m) ↔ ∃ f, IsMatching p sub f) ∧
    ∀ m, build slot p sub = .ok m →
      (∃ f, IsMatching p sub f ∧ (∀ g, IsMatching p sub g → g = f) ∧ m = ofMatching f) ∧
      m.entries.length = sub.patchableCount ∧ m.entries.length = p.parameterizedCount ∧
      m.sources.Perm p.parameterizedPositions ∧ ∀ n, m.verify n sub = .ok () := by
  refine ⟨?_, fun m hm => ?_⟩
  · constructor
    · rintro ⟨m, hm⟩
      obtain ⟨f, hf, -⟩ := build_eq_ok_iff_isMatching.1 hm
      exact ⟨f, hf⟩
    · rintro ⟨f, hf⟩
      exact ⟨_, build_eq_ok_iff_isMatching.2 ⟨f, hf, rfl⟩⟩
  · obtain ⟨f, hf, hmf⟩ := build_eq_ok_iff_isMatching.1 hm
    obtain ⟨order, horder, rfl⟩ := build_eq_ok_iff.1 hm
    have hcovers := covers_ofOrder horder
    have hsources := perm_sources_ofOrder horder
    refine ⟨⟨f, hf, fun g hg => hg.unique hf, hmf⟩, ?_, ?_, hsources,
      fun n => verify_eq_ok_iff.2 hcovers⟩
    · rw [← sub.length_patchablePositions, ← (covers_shapes_iff.1 hcovers).1, List.length_map]
    · rw [← p.length_parameterizedPositions, ← hsources.length_eq, sources, List.length_map]

end Mapping

namespace Example

/-- Rotations of two addresses with a gate between them. -/
def weave : Program := .ofOperations "weave"
  [⟨.rx, [0], [.int 1]⟩, ⟨.h, [0], []⟩, ⟨.rx, [1], [.int 2]⟩, ⟨.rx, [0], [.int 3]⟩]

/-- The rotations in another order of the addresses. -/
def wovenJob : SubJob :=
  ⟨"weave", [⟨.rx, [1], [.zero]⟩, ⟨.rx, [0], [.zero]⟩, ⟨.h, [0], []⟩, ⟨.rx, [0], [.zero]⟩], none⟩

/-- Each rotation is fed by the next one of its address, and the gate by none. -/
theorem build_weave :
    Mapping.build 0 weave wovenJob = .ok ⟨[⟨0, 2⟩, ⟨1, 0⟩, ⟨3, 3⟩]⟩ ∧
    (∃ f, IsMatching weave wovenJob f ∧ ∀ g, IsMatching weave wovenJob g → g = f) ∧
    (⟨[⟨0, 2⟩, ⟨1, 0⟩, ⟨3, 3⟩]⟩ : Mapping).sources.Perm weave.parameterizedPositions := by
  have hbuild : Mapping.build 0 weave wovenJob = .ok ⟨[⟨0, 2⟩, ⟨1, 0⟩, ⟨3, 3⟩]⟩ := by
    decide +kernel
  obtain ⟨⟨f, hf, honly, -⟩, -, -, hsources, -⟩ :=
    (Mapping.exists_build_iff_isMatching 0 weave wovenJob).2 _ hbuild
  exact ⟨hbuild, ⟨f, hf, honly⟩, hsources⟩

end Example

end CircuitCache
