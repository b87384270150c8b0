import Mathlib
import CircuitCache.Proofs.Declarations

/-!
# Operands

Good calls only add registers at the end, under new names, so operands resolved on the way are those
that all the registers give in the end (`AllGood.resolveAll_after`).
-/

namespace CircuitCache

variable {calls before rest : List Call} {name : String}

theorem quantumOf_append (before rest : List Call) :
    quantumOf (before ++ rest) = quantumOf before ++ quantumOf rest :=
  List.filterMap_append

theorem classicalOf_append (before rest : List Call) :
    classicalOf (before ++ rest) = classicalOf before ++ classicalOf rest :=
  List.filterMap_append

theorem AllGood.of_append (h : AllGood (before ++ rest)) : AllGood before :=
  fun xs call ys hsplit => h xs call (ys ++ rest) (by simp [hsplit])

/-- A name that is declared is not declared again, as a quantum register or as a classical one. -/
theorem AllGood.exists_quantum_iff (h : AllGood (before ++ rest))
    (hname : ∃ r ∈ declaredBy before, r.name = name) :
    (∃ r ∈ quantumOf (before ++ rest), r.name = name) ↔ ∃ r ∈ quantumOf before, r.name = name := by
  rw [quantumOf_append]
  constructor
  · rintro ⟨r, hr, hrname⟩
    obtain ⟨s, hs, hsname⟩ := hname
    obtain hs | hs := List.mem_append.1 hs
    · exact ⟨s, hs, hsname⟩
    · have hdistinct := h.distinct
      rw [declaredBy, quantumOf_append, classicalOf_append, List.map_append] at hdistinct
      refine absurd (hrname.trans hsname.symm) ?_
      exact (List.nodup_append.1 hdistinct).2.2 _ (List.mem_map_of_mem hr) _
        (List.mem_map_of_mem (List.mem_append_left _ hs))
  · rintro ⟨r, hr, hrname⟩
    exact ⟨r, List.mem_append_left _ hr, hrname⟩

theorem AllGood.operandsOf_append (h : AllGood (before ++ rest)) {places : List (String × ℕ)}
    (hplaces : ∀ place ∈ places, ¬IsStray (declaredBy before) place) :
    operandsOf (quantumOf (before ++ rest)) places = operandsOf (quantumOf before) places := by
  have hquantum : ∀ place ∈ places, (∃ r ∈ quantumOf (before ++ rest), r.name = place.1) ↔
      ∃ r ∈ quantumOf before, r.name = place.1 := by
    intro place hplace
    exact h.exists_quantum_iff (exists_of_not_isStray (hplaces place hplace))
  have hfilter : (places.filter fun place => ∃ r ∈ quantumOf (before ++ rest), r.name = place.1) =
      places.filter fun place => ∃ r ∈ quantumOf before, r.name = place.1 :=
    List.filter_congr fun place hplace => decide_eq_decide.2 (hquantum place hplace)
  rw [operandsOf, operandsOf, hfilter]
  refine List.map_congr_left fun place hplace => ?_
  have hname : ∃ r ∈ quantumOf before, r.name = place.1 := by
    simpa using (List.mem_filter.1 hplace).2
  rw [quantumOf_append, addressOf_append hname]

/-- Operands are resolved with the registers so far, and are those of all the registers. -/
theorem AllGood.resolveAll_after {tag : Tag} {places : List (String × ℕ)} {params : List Param}
    (h : AllGood (before ++ .op tag places params :: rest)) (name : String) :
    (Builder.after name before).resolveAll places =
      .ok (operandsOf (quantumOf (before ++ .op tag places params :: rest)) places) := by
  have hgood := h before _ rest rfl
  rw [allGood_iff.1 h.of_append] at hgood
  have hplaces : ∀ place ∈ places, ¬IsStray (declaredBy before) place :=
    fun place hplace hstray => hgood ⟨place, hplace, hstray⟩
  rw [h.operandsOf_append hplaces, ← h.of_append.registers_after name]
  rw [← h.of_append.declared_after name] at hplaces
  exact Builder.resolveAll_of_not_isStray hplaces

end CircuitCache
