import Mathlib
import CircuitCache.Proofs.Commuting
import CircuitCache.Proofs.Failures

/-!
# Making room

A request for room in a chunk is met from a template: the chunk itself, or chunk 0 where there is no
chunk (`Store.IsTemplate`).  The template keeps its slots, and the missing ones are copies of its
first slot (`Chunk.Extends`).  Without a template the chunk is missing, whatever the reason.
-/

namespace CircuitCache

/-! ## Chunks -/

namespace Chunk

section Fill

variable {α : Type} {count i : ℕ} {items : List α}

theorem getElem?_fill_of_lt (h : i < items.length) (item : α) :
    (fill count item items)[i]? = items[i]? := List.getElem?_append_left h

theorem getElem?_fill_of_ge (h : items.length ≤ i) (hi : i < count) (item : α) :
    (fill count item items)[i]? = some item := by
  rw [fill, List.getElem?_append_right h, List.getElem?_replicate, if_pos]
  omega

end Fill

/-- The chunk `d` has the backend and the slots of `c`, and then copies of the first slot of `c`,
until there are `count` slots. -/
structure Extends (c : Chunk) (count : ℕ) (d : Chunk) : Prop where
  whole : d.IsWhole
  backend : d.job.backend = c.job.backend
  slotCount : d.slotCount = max c.slotCount count
  kept : ∀ i < c.slotCount, d.slots[i]? = c.slots[i]?
  copied : ∀ i, c.slotCount ≤ i → i < count → d.slots[i]? = c.slots[0]?

theorem extends_self {c : Chunk} (hc : c.IsWhole) {count : ℕ} (h : count ≤ c.slotCount) :
    c.Extends count c where
  whole := hc
  backend := rfl
  slotCount := (max_eq_left h).symm
  kept _ _ := rfl
  copied i hi hcount := by omega

theorem extends_fill {backend : String} {xs : List Slot} {count : ℕ} {x : Slot}
    (hx : x ∈ xs.head?) : (ofSlots backend xs).Extends count (ofSlots backend (fill count x xs)) where
  whole := isWhole_ofSlots backend _
  backend := rfl
  slotCount := by rw [slotCount_ofSlots, slotCount_ofSlots, length_fill, max_comm]
  kept i hi := by
    rw [slotCount_ofSlots] at hi
    rw [slots_ofSlots, slots_ofSlots, getElem?_fill_of_lt hi]
  copied i hi hcount := by
    rw [slotCount_ofSlots] at hi
    rw [slots_ofSlots, slots_ofSlots, getElem?_fill_of_ge hi hcount, ← List.head?_eq_getElem?, hx]

/-- A chunk grows if it has a slot to copy or nothing has to be copied. -/
theorem IsWhole.exists_grow {c : Chunk} (hc : c.IsWhole) {count : ℕ}
    (h : 0 < c.slotCount ∨ count = 0) (index : ℕ) :
    ∃ d, c.grow index count = .ok d ∧ c.Extends count d := by
  by_cases hle : count ≤ c.slotCount
  · exact ⟨c, if_pos hle, extends_self hc hle⟩
  · obtain ⟨backend, xs, rfl⟩ := hc.exists_slots
    rw [slotCount_ofSlots] at h hle
    obtain ⟨x, xs, rfl⟩ := List.exists_cons_of_length_pos (show 0 < xs.length by omega)
    refine ⟨_, grow_ofSlots_eq_ok_iff.2 (.inr ⟨not_le.1 hle, x, rfl, rfl⟩), extends_fill rfl⟩

/-- A chunk without slots has none to copy. -/
theorem grow_of_slotCount_eq_zero {c : Chunk} (hc : c.slotCount = 0) {count : ℕ} (h : 0 < count)
    (index : ℕ) : c.grow index count = .error (.miss index) := by
  have hmappings : c.mappings = [] := List.length_eq_zero_iff.1 hc
  rw [grow, if_neg (by omega), hmappings]
  cases c.job.subJobs <;> rfl

end Chunk

/-! ## Stores -/

namespace Store

/-- The chunk is there, and has slots enough. -/
def HasRoom (s : Store) (index count : ℕ) (c : Chunk) : Prop :=
  s.chunk? index = some c ∧ count ≤ c.slotCount

/-- The chunk that slots are copied from: the chunk that is short of them, or chunk 0 where there is
no chunk.  It has a slot to copy, unless none is asked for. -/
inductive IsTemplate (s : Store) (index count : ℕ) (c : Chunk) : Prop
  | itself (hreuse : s.config.reuseAcrossChunks = true) (hc : s.chunk? index = some c)
    (hpos : 0 < c.slotCount) (hlt : c.slotCount < count)
  | first (hreuse : s.config.reuseAcrossChunks = true) (hnone : s.chunk? index = none)
    (hc : s.chunk? 0 = some c) (hpos : 0 < c.slotCount ∨ count = 0)

variable {s : Store} {index count : ℕ}

theorem ensureCapacity_of_limit_lt (h : s.config.submissionSizeLimit < count) :
    s.ensureCapacity index count =
      (.error (.shapeMismatch index count s.config.submissionSizeLimit), s) := by
  rw [ensureCapacity, checkLimit, if_pos h]

/-- A template that grows is put in place. -/
theorem IsTemplate.ensureCapacity {c d : Chunk} (h : s.IsTemplate index count c)
    (hlimit : count ≤ s.config.submissionSizeLimit) (hgrow : c.grow index count = .ok d) :
    s.ensureCapacity index count = (.ok (), s.reuse index d) := by
  rw [Store.ensureCapacity, checkLimit_of_le hlimit]
  cases h with
  | itself hreuse hc _ hlt =>
    simp only [hc, hreuse, if_neg (not_le.2 hlt), hgrow]
    rfl
  | first hreuse hnone hc => simp only [hnone, hreuse, hc, hgrow]

/-- With neither room nor a template the chunk has to be compiled. -/
theorem ensureCapacity_of_not_isTemplate (hlimit : count ≤ s.config.submissionSizeLimit)
    (hroom : ∀ c, ¬s.HasRoom index count c) (htemplate : ∀ c, ¬s.IsTemplate index count c) :
    s.ensureCapacity index count = (.error (.miss index), s) := by
  rw [Store.ensureCapacity, checkLimit_of_le hlimit]
  rcases hc : s.chunk? index with _ | c
  · rcases hreuse : s.config.reuseAcrossChunks with _ | _
    · rfl
    · rcases h0 : s.chunk? 0 with _ | template
      · rfl
      · -- Chunk 0 is no template, so it has no slots.
        have hempty : ¬(0 < template.slotCount ∨ count = 0) := fun h =>
          htemplate template (.first hreuse hc h0 h)
        simp only [template.grow_of_slotCount_eq_zero (show template.slotCount = 0 by omega)
          (show 0 < count by omega)]
  · have hlt : c.slotCount < count := not_le.1 fun h => hroom c ⟨hc, h⟩
    simp only [if_neg (not_le.2 hlt)]
    rcases hreuse : s.config.reuseAcrossChunks with _ | _
    · rfl
    · have hempty : ¬0 < c.slotCount := fun h => htemplate c (.itself hreuse hc h hlt)
      simp only [c.grow_of_slotCount_eq_zero (show c.slotCount = 0 by omega)
        (show 0 < count by omega)]
      rfl

/-- A request never touches another chunk. -/
theorem keepsOthers_ensureCapacity (s : Store) (index count : ℕ) :
    s.KeepsOthers (s.ensureCapacity index count).2 index := by
  obtain ⟨e, hdoes, -⟩ := exists_does_ensureCapacity (s := s) (t := s) rfl
    (Eq.refl (s.chunk? index)) (fun _ => rfl) count
  exact hdoes.keepsOthers

/-- After every run, a request for more slots than the limit is refused.  One for no more changes
nothing where the chunk has the slots; where there is a template, the chunk has its slots afterwards,
and then copies of the first one; in every other case the chunk is missing.  No request changes
another chunk or a gap, and one that fails changes nothing. -/
theorem ensureCapacity_of_run (config : Config) (backing : Backing)
    (calls : List (Instant × Action)) (index count : ℕ) :
    let s := (opened config backing).run calls
    let r := s.ensureCapacity index count
    (s.config.submissionSizeLimit < count →
      r.1 = .error (.shapeMismatch index count s.config.submissionSizeLimit)) ∧
    (count ≤ s.config.submissionSizeLimit →
      (∀ c, s.HasRoom index count c → r.1 = .ok () ∧ r.2.chunks = s.chunks) ∧
      (∀ c, s.IsTemplate index count c → r.1 = .ok () ∧
        ∃ d, r.2.chunk? index = some d ∧ c.Extends count d) ∧
      ((∀ c, ¬s.HasRoom index count c ∧ ¬s.IsTemplate index count c) →
        r.1 = .error (.miss index))) ∧
    s.KeepsOthers r.2 index ∧ ∀ e, r.1 = .error e → r.2 = s := by
  intro s r
  refine ⟨fun h => congrArg Prod.fst (ensureCapacity_of_limit_lt h), fun hlimit => ⟨?_, ?_, ?_⟩,
    s.keepsOthers_ensureCapacity index count, s.atomic_ensureCapacity index count⟩
  · rintro c ⟨hc, hle⟩
    rw [show r = _ from s.ensureCapacity_of_le hc hle hlimit]
    exact ⟨rfl, rfl⟩
  · intro c hc
    have hwhole : c.IsWhole ∧ (0 < c.slotCount ∨ count = 0) := by
      cases hc with
      | itself _ hc hpos => exact ⟨isWhole_chunk?_run hc, .inl hpos⟩
      | first _ _ hc hpos => exact ⟨isWhole_chunk?_run hc, hpos⟩
    obtain ⟨d, hgrow, hextends⟩ := hwhole.1.exists_grow hwhole.2 index
    rw [show r = _ from hc.ensureCapacity hlimit hgrow]
    exact ⟨rfl, d, chunk?_of_place rfl, hextends⟩
  · intro h
    exact congrArg Prod.fst (ensureCapacity_of_not_isTemplate hlimit (fun c => (h c).1)
      fun c => (h c).2)

end Store

namespace Example

/-- The chunk of the rotation with one slot. -/
def singleChunk : Chunk :=
  .ofSlots "device" [⟨⟨"turn", [⟨.rz, [0], [.zero]⟩], none⟩, ⟨[⟨0, 0⟩]⟩, Key.ofProgram rotation⟩]

/-- Chunk 0 with its one slot makes two slots of chunk 3; chunk 2 is skipped. -/
theorem ensureCapacity_rotation :
    let s := (Store.opened {} .none).run [(noon, .insert 0 rotationJob [rotation])]
    let r := s.ensureCapacity 3 2
    (2 ≤ s.config.submissionSizeLimit ∧ s.IsTemplate 3 2 singleChunk) ∧
    (∃ d, r.2.chunk? 3 = some d ∧ singleChunk.Extends 2 d) ∧ r.2.chunk? 2 = none ∧
    r.2.chunk? 0 = some singleChunk := by
  intro s r
  have hlimit : 2 ≤ s.config.submissionSizeLimit := by decide
  have htemplate : s.IsTemplate 3 2 singleChunk := .first rfl rfl rfl (.inl (by decide))
  obtain ⟨-, hroom, hothers, -⟩ := Store.ensureCapacity_of_run {} .none
    [(noon, .insert 0 rotationJob [rotation])] 3 2
  exact ⟨⟨hlimit, htemplate⟩, ((hroom hlimit).2.1 _ htemplate).2,
    hothers.skipped 2 (by decide) (by decide), hothers.chunks 0 (by decide)⟩

end Example

end CircuitCache
