import Mathlib
import CircuitCache.Proofs.Coverage

/-!
# Pairing operations with instructions

An order in which the operations of one structure become the instructions of another, those of
equal signature in the order they had, is a pairing (`IsPairing`).  `Mapping.build` succeeds exactly
when there is one, and its mapping is read off it (`Mapping.ofOrder`).  Both depend on the two lists
of shapes alone.
-/

namespace CircuitCache

/-- The shape at position `i` of `target` is the one at position `order[i]` of `source`, every
position of `source` is used once, and shapes of equal signature stay in order. -/
structure IsPairing (source target : List Shape) (order : List Nat) : Prop where
  perm : order.Perm (List.range source.length)
  shape : order.map (source[·]?) = target.map some
  ordered : order.Pairwise fun a b =>
    source[a]?.map Shape.signature = source[b]?.map Shape.signature → a < b

theorem Operation.isParameterized_shape (op : Operation) :
    op.shape.isParameterized = op.isParameterized := by
  rw [Shape.isParameterized, Operation.isParameterized, Operation.shape]
  cases op.params <;> rfl

/-- Operations are listed by position. -/
theorem Program.pairwise_zipIdx (p : Program) :
    p.unrolled.zipIdx.Pairwise fun v w => v.2 < w.2 := by
  rw [← List.pairwise_map (f := Prod.snd), List.zipIdx_map_snd]
  exact List.pairwise_lt_range'

namespace Mapping

/-- The entries of the instructions that carry parameters, when instruction `i` comes from operation
`order[i]`. -/
def ofOrder (source : List Shape) (order : List Nat) : Mapping :=
  ⟨order.zipIdx.filterMap fun (b, i) =>
    if source[b]?.any Shape.isParameterized then some ⟨i, b⟩ else none⟩

/-! ## Claiming -/

/-- A claim takes the first operation of its signature and leaves the others in order. -/
theorem claim_eq_some_iff {signature : Signature} {waiting others : List Waiting} {w : Waiting} :
    claim signature waiting = some (w, others) ↔ ∃ before after,
      waiting = before ++ w :: after ∧ others = before ++ after ∧ w.1.signature = signature ∧
        ∀ v ∈ before, v.1.signature ≠ signature := by
  induction waiting generalizing others with
  | nil => simp [claim]
  | cons v rest ih =>
    rw [claim]
    by_cases h : v.1.signature = signature
    · rw [if_pos h]
      constructor
      · rintro ⟨⟩
        exact ⟨[], rest, rfl, rfl, h, by simp⟩
      · rintro ⟨before, after, hsplit, rfl, -, hbefore⟩
        cases before with
        | nil =>
          rw [List.nil_append, List.cons.injEq] at hsplit
          rw [hsplit.1, hsplit.2, List.nil_append]
        | cons u before =>
          rw [List.cons_append, List.cons.injEq] at hsplit
          exact absurd (hsplit.1 ▸ h) (hbefore u List.mem_cons_self)
    · rw [if_neg h, Option.map_eq_some_iff]
      constructor
      · rintro ⟨⟨found, left⟩, hclaim, ⟨⟩⟩
        obtain ⟨before, after, rfl, rfl, hw, hbefore⟩ := ih.1 hclaim
        exact ⟨v :: before, after, rfl, rfl, hw, List.forall_mem_cons.2 ⟨h, hbefore⟩⟩
      · rintro ⟨before, after, hsplit, rfl, hw, hbefore⟩
        cases before with
        | nil =>
          rw [List.nil_append, List.cons.injEq] at hsplit
          exact absurd (hsplit.1 ▸ hw) h
        | cons u before =>
          rw [List.cons_append, List.cons.injEq] at hsplit
          obtain ⟨rfl, rfl⟩ := hsplit
          exact ⟨(w, before ++ after), ih.2 ⟨before, after, rfl, rfl, hw,
            (List.forall_mem_cons.1 hbefore).2⟩, rfl⟩

theorem sublist_of_claim {signature : Signature} {waiting others : List Waiting} {w : Waiting}
    (h : claim signature waiting = some (w, others)) : others.Sublist waiting := by
  obtain ⟨before, after, rfl, rfl, -, -⟩ := claim_eq_some_iff.1 h
  exact List.Sublist.append_left (List.sublist_cons_self w after) before

/-- The waiting operations in the order in which they become instructions of these shapes, those of
equal signature by position. -/
structure Claims (waiting : List Waiting) (target : List Shape) (claimed : List Waiting) : Prop where
  perm : claimed.Perm waiting
  shape : claimed.map (·.1.shape) = target
  ordered : claimed.Pairwise fun v w => v.1.signature = w.1.signature → v.2 < w.2

namespace Claims

variable {before after rest claimed : List Waiting} {w : Waiting} {x : Shape} {target : List Shape}

theorem nil : Claims [] [] [] := ⟨.nil, rfl, .nil⟩

/-- The first operation of its signature can be claimed before the others. -/
theorem cons (hsorted : (before ++ w :: after).Pairwise fun v w => v.2 < w.2)
    (hbefore : ∀ v ∈ before, v.1.signature ≠ w.1.signature)
    (h : Claims (before ++ after) target claimed) :
    Claims (before ++ w :: after) (w.1.shape :: target) (w :: claimed) where
  perm := (h.perm.cons w).trans List.perm_middle.symm
  shape := by rw [List.map_cons, h.shape]
  ordered := by
    refine List.pairwise_cons.2 ⟨fun v hv hsig => ?_, h.ordered⟩
    rcases List.mem_append.1 (h.perm.mem_iff.1 hv) with hv | hv
    · exact absurd hsig.symm (hbefore v hv)
    · exact (List.pairwise_cons.1 (List.pairwise_append.1 hsorted).2.1).1 v hv

/-- Whatever is claimed first is the first operation of its signature. -/
theorem uncons (hsorted : (before ++ w :: after).Pairwise fun v w => v.2 < w.2)
    (hbefore : ∀ v ∈ before, v.1.signature ≠ w.1.signature) (hsig : x.signature = w.1.signature)
    (h : Claims (before ++ w :: after) (x :: target) claimed) :
    x = w.1.shape ∧ ∃ rest, claimed = w :: rest ∧ Claims (before ++ after) target rest := by
  obtain ⟨v, rest, rfl, rfl, hshape⟩ := List.map_eq_cons_iff.1 h.shape
  obtain ⟨hfirst, hordered⟩ := List.pairwise_cons.1 h.ordered
  have hvw : v = w := by
    rcases List.mem_cons.1 (h.perm.mem_iff.2 (List.mem_append_right before List.mem_cons_self))
      with heq | hw
    · exact heq.symm
    · have hlt := hfirst w hw hsig
      rcases List.mem_append.1 (h.perm.mem_iff.1 List.mem_cons_self) with hv | hv
      · exact absurd hsig (hbefore v hv)
      · rcases List.mem_cons.1 hv with heq | hv
        · exact heq
        · have hgt := (List.pairwise_cons.1 (List.pairwise_append.1 hsorted).2.1).1 v hv
          exact absurd hlt hgt.asymm
  subst hvw
  exact ⟨rfl, rest, rfl, (h.perm.trans List.perm_middle).cons_inv, hshape, hordered⟩

end Claims

/-! ## Building -/

/-- The entries of instructions from `position` on that claimed these operations. -/
def entriesFrom (position : Nat) (claimed : List Waiting) : List Entry :=
  (claimed.zipIdx position).filterMap fun (w, i) =>
    if w.1.isParameterized then some ⟨i, w.2⟩ else none

theorem entriesFrom_cons (position : Nat) (w : Waiting) (claimed : List Waiting) :
    entriesFrom position (w :: claimed) =
      if w.1.isParameterized then ⟨position, w.2⟩ :: entriesFrom (position + 1) claimed
      else entriesFrom (position + 1) claimed := by
  cases h : w.1.isParameterized <;> simp [entriesFrom, h]

/-- Instructions are paired up with the waiting operations exactly when these can be claimed in
full, and the entries are those of the claims. -/
theorem pairUp_eq_ok_iff {slot position : Nat} {waiting : List Waiting} {is : List Instruction}
    {entries : List Entry} (hsorted : waiting.Pairwise fun v w => v.2 < w.2) :
    pairUp slot waiting position is = .ok entries ↔ ∃ claimed,
      Claims waiting (is.map Instruction.shape) claimed ∧
        entries = entriesFrom position claimed := by
  -- On the instructions: what waits stays sorted by position, so the first of a signature comes
  -- before all others of it.
  induction is generalizing waiting position entries with
  | nil =>
    cases waiting with
    | nil =>
      rw [pairUp]
      constructor
      · rintro ⟨⟩
        exact ⟨[], .nil, rfl⟩
      · rintro ⟨claimed, h, rfl⟩
        rw [h.perm.eq_nil]
        rfl
    | cons w rest =>
      rw [pairUp]
      refine iff_of_false (by simp) ?_
      rintro ⟨claimed, h, -⟩
      have hempty := h.shape
      rw [List.map_nil, List.map_eq_nil_iff] at hempty
      exact absurd (hempty ▸ h.perm).symm.eq_nil (by simp)
  | cons i rest ih =>
    rw [pairUp]
    rcases hclaim : claim i.signature waiting with _ | ⟨w, others⟩
    · refine iff_of_false (by simp) ?_
      rintro ⟨claimed, h, -⟩
      obtain ⟨v, claimed, rfl, hv, -⟩ := List.map_eq_cons_iff.1 h.shape
      exact claim_eq_none_iff.1 hclaim v (h.perm.mem_iff.1 List.mem_cons_self)
        (congrArg Shape.signature hv)
    · have hothers := hsorted.sublist (sublist_of_claim hclaim)
      obtain ⟨before, after, rfl, rfl, hsig, hbefore⟩ := claim_eq_some_iff.1 hclaim
      have hbefore : ∀ v ∈ before, v.1.signature ≠ w.1.signature := fun v hv h =>
        hbefore v hv (h.trans hsig)
      simp only
      by_cases harity : w.1.params.length = i.params.length
      · have hshape : w.1.shape = i.shape := by
          rw [Operation.shape, Instruction.shape, hsig, harity]
        have hentries (claimed : List Waiting) : entriesFrom position (w :: claimed) =
            if i.isPatchable then ⟨position, w.2⟩ :: entriesFrom (position + 1) claimed
            else entriesFrom (position + 1) claimed := by
          rw [entriesFrom_cons, ← w.1.isParameterized_shape, hshape, i.isParameterized_shape]
        rw [if_neg (not_not.2 harity), List.map_cons, ← hshape]
        constructor
        · intro hok
          rcases hrest : pairUp slot (before ++ after) (position + 1) rest with e | tail
          · rw [hrest] at hok
            cases hok
          · rw [hrest] at hok
            obtain ⟨claimed, h, rfl⟩ := (ih hothers).1 hrest
            refine ⟨w :: claimed, h.cons hsorted hbefore, ?_⟩
            rw [hentries]
            exact (Except.ok.inj hok).symm
        · rintro ⟨claimed, h, rfl⟩
          obtain ⟨-, claimed, rfl, hothersClaimed⟩ := h.uncons hsorted hbefore rfl
          have hrest : pairUp slot (before ++ after) (position + 1) rest =
              .ok (entriesFrom (position + 1) claimed) :=
            (ih hothers).2 ⟨claimed, hothersClaimed, rfl⟩
          rw [hrest, hentries]
      · rw [if_pos harity]
        refine iff_of_false (by simp) ?_
        rintro ⟨claimed, h, -⟩
        have hshape := (h.uncons hsorted hbefore hsig.symm).1
        exact harity (congrArg Shape.arity hshape).symm

theorem getElem?_shapes_of_claimed {p : Program} {claimed : List Waiting}
    (hperm : claimed.Perm p.unrolled.zipIdx) :
    ∀ w ∈ claimed, p.shapes[w.2]? = some w.1.shape := by
  intro w hw
  rw [Program.shapes, List.getElem?_map, List.mem_zipIdx_iff_getElem?.1 (hperm.mem_iff.1 hw),
    Option.map_some]

/-- Claimed operations, by their positions alone. -/
theorem ofOrder_eq_entriesFrom {p : Program} {claimed : List Waiting}
    (hperm : claimed.Perm p.unrolled.zipIdx) :
    ofOrder p.shapes (claimed.map Prod.snd) = ⟨entriesFrom 0 claimed⟩ := by
  rw [ofOrder, entriesFrom, List.zipIdx_map, List.filterMap_map]
  refine congrArg Mapping.mk (List.filterMap_congr fun wi hwi => ?_)
  obtain ⟨w, i⟩ := wi
  have hw : p.shapes[w.2]? = some w.1.shape :=
    getElem?_shapes_of_claimed hperm w (List.fst_mem_of_mem_zipIdx hwi)
  simp only [Function.comp_apply, Prod.map_apply, hw, Option.any_some,
    w.1.isParameterized_shape, id]

/-- Operations that are claimed in full are a pairing, by their positions. -/
theorem isPairing_iff_claims {p : Program} {target : List Shape} {claimed : List Waiting}
    (hperm : claimed.Perm p.unrolled.zipIdx) :
    IsPairing p.shapes target (claimed.map Prod.snd) ↔ Claims p.unrolled.zipIdx target claimed := by
  have hshape := getElem?_shapes_of_claimed hperm
  have hall : (claimed.map Prod.snd).Perm (List.range p.shapes.length) := by
    rw [Program.shapes, List.length_map, List.range_eq_range', ← List.zipIdx_map_snd]
    exact hperm.map Prod.snd
  have hmap : (claimed.map Prod.snd).map (p.shapes[·]?) =
      (claimed.map (·.1.shape)).map some := by
    rw [List.map_map, List.map_map]
    exact List.map_congr_left hshape
  have hordered : ((claimed.map Prod.snd).Pairwise fun a b =>
      p.shapes[a]?.map Shape.signature = p.shapes[b]?.map Shape.signature → a < b) ↔
      claimed.Pairwise fun v w => v.1.signature = w.1.signature → v.2 < w.2 := by
    rw [List.pairwise_map]
    refine List.Pairwise.iff_of_mem fun {v w} hv hw => ?_
    rw [hshape v hv, hshape w hw, Option.map_some, Option.map_some, Option.some_inj]
    rfl
  constructor
  · rintro ⟨-, hs, ho⟩
    rw [hmap] at hs
    exact ⟨hperm, List.map_injective_iff.2 (Option.some_injective Shape) hs, hordered.1 ho⟩
  · rintro ⟨-, rfl, ho⟩
    exact ⟨hall, hmap, hordered.2 ho⟩

/-- Every order of the positions is one of the operations. -/
theorem exists_claimed {p : Program} {order : List Nat}
    (hperm : order.Perm (List.range p.unrolled.length)) :
    ∃ claimed : List Waiting, claimed.Perm p.unrolled.zipIdx ∧ claimed.map Prod.snd = order := by
  rw [List.range_eq_range', ← List.zipIdx_map_snd] at hperm
  have hsame : List.Forall₂ (fun b (w : Waiting) => b = w.2)
      (p.unrolled.zipIdx.map Prod.snd) p.unrolled.zipIdx :=
    List.forall₂_map_left_iff.2 (List.forall₂_same.2 fun w _ => rfl)
  obtain ⟨claimed, hclaimed, hp⟩ := List.perm_comp_forall₂ hperm hsame
  refine ⟨claimed, hp, ?_⟩
  rw [← List.forall₂_map_right_iff (R := Eq), List.forall₂_eq_eq_eq] at hclaimed
  exact hclaimed.symm

/-- A mapping can be built exactly when there is a pairing, and is the one read off it.  Neither
parameters nor the number of the slot matter. -/
theorem build_eq_ok_iff {slot : Nat} {p : Program} {sub : SubJob} {m : Mapping} :
    build slot p sub = .ok m ↔
      ∃ order, IsPairing p.shapes sub.shapes order ∧ m = ofOrder p.shapes order := by
  have hbuild : build slot p sub = .ok m ↔
      pairUp slot p.unrolled.zipIdx 0 sub.instructions = .ok m.entries := by
    unfold build
    rcases pairUp slot p.unrolled.zipIdx 0 sub.instructions with e | entries
    · simp
    · rw [Except.ok.injEq, Except.ok.injEq]
      exact ⟨fun h => h ▸ rfl, fun h => h ▸ rfl⟩
  rw [hbuild, pairUp_eq_ok_iff p.pairwise_zipIdx]
  constructor
  · rintro ⟨claimed, h, hentries⟩
    refine ⟨claimed.map Prod.snd, (isPairing_iff_claims h.perm).2 h, ?_⟩
    rw [ofOrder_eq_entriesFrom h.perm, ← hentries]
  · rintro ⟨order, horder, rfl⟩
    have hlen := horder.perm
    rw [Program.shapes, List.length_map] at hlen
    obtain ⟨claimed, hperm, rfl⟩ := exists_claimed hlen
    refine ⟨claimed, (isPairing_iff_claims hperm).1 horder, ?_⟩
    rw [ofOrder_eq_entriesFrom hperm]

end Mapping

/-! ## Consequences -/

namespace IsPairing

variable {source target : List Shape} {order : List Nat}

theorem nodup (h : IsPairing source target order) : order.Nodup :=
  h.perm.nodup_iff.2 List.nodup_range

/-- The instruction at a position has the shape of the operation it came from. -/
theorem getElem?_source (h : IsPairing source target order) {i b : Nat} (hb : order[i]? = some b) :
    source[b]? = target[i]? := by
  have hi := congrArg (·[i]?) h.shape
  simp only [List.getElem?_map, hb, Option.map_some] at hi
  obtain ⟨x, hx, hsome⟩ := Option.map_eq_some_iff.1 hi.symm
  rw [hx, hsome]

theorem length_eq (h : IsPairing source target order) : order.length = target.length := by
  simpa using congrArg List.length h.shape

end IsPairing

namespace Mapping

theorem mem_ofOrder {source : List Shape} {order : List Nat} {e : Entry} :
    e ∈ (ofOrder source order).entries ↔
      order[e.instruction]? = some e.operation ∧
        source[e.operation]?.any Shape.isParameterized = true := by
  rw [ofOrder, List.mem_filterMap]
  constructor
  · rintro ⟨⟨b, i⟩, hmem, h⟩
    rw [Option.ite_none_right_eq_some, Option.some_inj] at h
    obtain ⟨hany, rfl⟩ := h
    exact ⟨List.mem_zipIdx_iff_getElem?.1 hmem, hany⟩
  · rintro ⟨hget, hany⟩
    exact ⟨(e.operation, e.instruction), List.mem_zipIdx_iff_getElem?.2 hget, if_pos hany⟩

/-- What an entry of `ofOrder` is made of. -/
theorem entry_of_ite_eq_some {b : Bool} {x : Nat × Nat} {e : Entry}
    (h : (if b then some (⟨x.2, x.1⟩ : Entry) else none) = some e) :
    e.instruction = x.2 ∧ e.operation = x.1 := by
  rw [Option.ite_none_right_eq_some, Option.some_inj] at h
  exact ⟨h.2 ▸ rfl, h.2 ▸ rfl⟩

theorem pairwise_instruction_ofOrder (source : List Shape) (order : List Nat) :
    ((ofOrder source order).entries.map Entry.instruction).Pairwise (· < ·) := by
  have hzip : order.zipIdx.Pairwise fun x y => x.2 < y.2 := by
    rw [← List.pairwise_map (f := Prod.snd), List.zipIdx_map_snd]
    exact List.pairwise_lt_range'
  rw [List.pairwise_map, ofOrder, List.pairwise_filterMap]
  refine hzip.imp fun hlt d hd e he => ?_
  rw [(entry_of_ite_eq_some hd).1, (entry_of_ite_eq_some he).1]
  exact hlt

theorem nodup_sources_ofOrder (source : List Shape) {order : List Nat} (h : order.Nodup) :
    (ofOrder source order).sources.Nodup := by
  have hzip : order.zipIdx.Pairwise fun x y => x.1 ≠ y.1 := by
    rw [← List.pairwise_map (f := Prod.fst) (R := (· ≠ ·)), List.zipIdx_map_fst]
    exact h
  rw [sources, List.Nodup, List.pairwise_map, ofOrder, List.pairwise_filterMap]
  refine hzip.imp fun hne d hd e he => ?_
  rw [(entry_of_ite_eq_some hd).2, (entry_of_ite_eq_some he).2]
  exact hne

/-- The mapping of a pairing covers the compiled form. -/
theorem covers_ofOrder {source target : List Shape} {order : List Nat}
    (h : IsPairing source target order) : (ofOrder source order).Covers target := by
  have hmem (i : Nat) : i ∈ (ofOrder source order).entries.map Entry.instruction ↔
      i ∈ target.findIdxs Shape.isParameterized := by
    rw [List.mem_map, List.mem_findIdxs_iff_exists_getElem_pos]
    constructor
    · rintro ⟨e, he, rfl⟩
      obtain ⟨hget, hany⟩ := mem_ofOrder.1 he
      rw [h.getElem?_source hget, Option.any_eq_true] at hany
      obtain ⟨x, hx, hparam⟩ := hany
      obtain ⟨hi, rfl⟩ := List.getElem?_eq_some_iff.1 hx
      exact ⟨hi, hparam⟩
    · rintro ⟨hi, hparam⟩
      have hlt : i < order.length := by rwa [h.length_eq]
      refine ⟨⟨i, order[i]⟩, mem_ofOrder.2 ⟨List.getElem?_eq_getElem hlt, ?_⟩, rfl⟩
      rw [h.getElem?_source (List.getElem?_eq_getElem hlt), List.getElem?_eq_getElem hi]
      exact hparam
  have hsorted := pairwise_instruction_ofOrder source order
  have hpositions : (target.findIdxs Shape.isParameterized).Pairwise (· < ·) :=
    List.pairwise_findIdxs
  have hperm := (List.perm_ext_iff_of_nodup (hsorted.imp fun h => h.ne)
    (hpositions.imp fun h => h.ne)).2 hmem
  exact ⟨hperm.eq_of_pairwise (fun a b _ _ hab hba => absurd hab hba.asymm) hsorted hpositions,
    nodup_sources_ofOrder source h.nodup⟩

end Mapping

end CircuitCache
