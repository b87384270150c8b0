import Mathlib
import CircuitCache.Proofs.Integrity
import CircuitCache.Proofs.Steps

/-!
# Calls about different chunks

A call about one chunk reads that chunk, and chunk 0 if it makes room in a chunk that is absent.  It
puts at most one chunk in place and counts that.  So two calls about different chunks can be made in
either order, unless one of them copies the chunk that the other one is about.
-/

namespace CircuitCache

/-! ## Counting and placing -/

/-- All counts of both. -/
def Counters.plus (c d : Counters) : Counters :=
  ⟨c.hits + d.hits, c.misses + d.misses, c.inserts + d.inserts, c.reuses + d.reuses,
    c.patches + d.patches⟩

theorem Counters.plus_right_comm (c d e : Counters) :
    (c.plus d).plus e = (c.plus e).plus d := by
  simp only [plus, Nat.add_right_comm]

namespace Store

/-- Lists of the same length with the same chunks have the same gaps. -/
theorem chunks_ext {xs ys : List (Option Chunk)} (hlength : xs.length = ys.length)
    (h : ∀ i : ℕ, xs[i]?.join = ys[i]?.join) : xs = ys := by
  refine List.ext_getElem hlength fun i hx hy => ?_
  have hi := h i
  rw [List.getElem?_eq_getElem hx, List.getElem?_eq_getElem hy] at hi
  exact hi

theorem place_comm {i j : ℕ} (h : i ≠ j) (c d : Chunk) (chunks : List (Option Chunk)) :
    place j d (place i c chunks) = place i c (place j d chunks) := by
  apply chunks_ext
  · simp only [length_place]
    omega
  · intro k
    by_cases hi : k = i
    · rw [hi, join_getElem?_place_of_ne h.symm, getElem?_place_self, getElem?_place_self]
    · rw [join_getElem?_place_of_ne (Ne.symm hi) c (place j d chunks)]
      by_cases hj : k = j
      · rw [hj, getElem?_place_self, getElem?_place_self]
      · rw [join_getElem?_place_of_ne (Ne.symm hj), join_getElem?_place_of_ne (Ne.symm hi),
          join_getElem?_place_of_ne (Ne.symm hj)]

end Store

/-! ## Effects -/

/-- What a call does: its result, the chunk that it puts in place, if any, and what it counts. -/
structure Effect (α : Type) where
  result : α
  placed : Option Chunk := none
  counted : Counters := {}

namespace Effect

variable {α β : Type}

/-- The chunks after the effect on chunk `index`. -/
def place (e : Effect α) (index : ℕ) (chunks : List (Option Chunk)) : List (Option Chunk) :=
  match e.placed with
  | none => chunks
  | some c => Store.place index c chunks

theorem join_getElem?_place_of_ne {i j : ℕ} (h : i ≠ j) (e : Effect α)
    (chunks : List (Option Chunk)) : (e.place i chunks)[j]?.join = chunks[j]?.join := by
  unfold place
  split
  · rfl
  · exact Store.join_getElem?_place_of_ne h _ chunks

theorem place_comm {i j : ℕ} (h : i ≠ j) (e : Effect α) (f : Effect β)
    (chunks : List (Option Chunk)) : f.place j (e.place i chunks) = e.place i (f.place j chunks) := by
  unfold place
  split
  · split <;> rfl
  · split
    · rfl
    · exact Store.place_comm h _ _ chunks

end Effect

/-- The chunk that a call is about, if it may change that chunk alone. -/
def Action.target? : Action → Option ℕ
  | insert index _ _ => some index
  | ensureCapacity index _ => some index
  | patchInPlace index _ => some index
  | _ => none

namespace Store

/-- The result of a call, and the store after it, come from this effect on chunk `index`. -/
structure Does {α : Type} (s : Store) (index : ℕ) (e : Effect α) (r : α × Store) : Prop where
  result : r.1 = e.result
  config : r.2.config = s.config
  chunks : r.2.chunks = e.place index s.chunks
  counters : r.2.counters = s.counters.plus e.counted

section Effects

variable {α : Type} (s : Store) (index : ℕ)

theorem does_nothing (x : α) : s.Does index ⟨x, none, {}⟩ (x, s) := ⟨rfl, rfl, rfl, rfl⟩

theorem does_insert (x : α) (c : Chunk) (now : Instant) :
    s.Does index ⟨x, some c, { inserts := 1 }⟩ (x, (s.inserted index c).persist now) :=
  ⟨rfl, rfl, rfl, rfl⟩

theorem does_reuse (x : α) (c : Chunk) :
    s.Does index ⟨x, some c, { reuses := 1 }⟩ (x, s.reuse index c) := ⟨rfl, rfl, rfl, rfl⟩

theorem does_patch (x : α) (c : Chunk) :
    s.Does index ⟨x, some c, { patches := 1 }⟩ (x, s.repatched index c) := ⟨rfl, rfl, rfl, rfl⟩

end Effects

/-! ### Other chunks -/

/-- The stores have the same chunks and gaps but for `index`.  Indices that are skipped to reach it
are gaps. -/
structure KeepsOthers (s t : Store) (index : ℕ) : Prop where
  chunks : ∀ j ≠ index, t.chunk? j = s.chunk? j
  skipped : ∀ j, s.chunks.length ≤ j → j ≠ index → t.chunk? j = none
  length : t.chunks.length = s.chunks.length ∨ t.chunks.length = max (index + 1) s.chunks.length

/-- An effect on a chunk leaves the others. -/
theorem Does.keepsOthers {α : Type} {s : Store} {index : ℕ} {e : Effect α} {r : α × Store}
    (h : s.Does index e r) : s.KeepsOthers r.2 index := by
  have hchunks (j : ℕ) (hj : j ≠ index) : r.2.chunk? j = s.chunk? j := by
    rw [chunk?, h.chunks]
    exact e.join_getElem?_place_of_ne hj.symm s.chunks
  refine ⟨hchunks, fun j hlength hj => ?_, ?_⟩
  · rw [hchunks j hj, chunk?, List.getElem?_eq_none hlength]
    rfl
  · rw [h.chunks, Effect.place]
    split
    · exact .inl rfl
    · exact .inr (length_place index _ s.chunks)

/-! ### Stores that are the same to a call

A call has one effect on both of them. -/

variable {s t : Store}

theorem checkLimit_congr (h : t.config = s.config) (index requested : ℕ) :
    t.checkLimit index requested = s.checkLimit index requested := by
  rw [checkLimit, checkLimit, h]

theorem exists_does_insert (h : t.config = s.config) (now later : Instant) (index : ℕ) (job : Job)
    (ps : List Program) :
    ∃ e, s.Does index e (s.insert now index job ps) ∧
      t.Does index e (t.insert later index job ps) := by
  unfold insert
  rw [checkLimit_congr h]
  rcases s.checkLimit index ps.length with e | u
  · exact ⟨_, s.does_nothing index _, t.does_nothing index _⟩
  · rcases compiled job ps with e | c
    · exact ⟨_, s.does_nothing index _, t.does_nothing index _⟩
    · exact ⟨_, s.does_insert index _ c now, t.does_insert index _ c later⟩

theorem exists_does_patchInPlace {index : ℕ} (h : t.chunk? index = s.chunk? index)
    (ps : List Program) :
    ∃ e, s.Does index e (s.patchInPlace index ps) ∧
      t.Does index e (t.patchInPlace index ps) := by
  unfold patchInPlace
  rw [h]
  rcases s.chunk? index with _ | c
  · exact ⟨_, s.does_nothing index _, t.does_nothing index _⟩
  · dsimp only
    rcases c.patchInPlace index ps with e | d
    · exact ⟨_, s.does_nothing index _, t.does_nothing index _⟩
    · exact ⟨_, s.does_patch index _ d, t.does_patch index _ d⟩

theorem exists_does_ensureCapacity (hconfig : t.config = s.config) {index : ℕ}
    (h : t.chunk? index = s.chunk? index)
    (hfirst : s.chunk? index = none → t.chunk? 0 = s.chunk? 0) (count : ℕ) :
    ∃ e, s.Does index e (s.ensureCapacity index count) ∧
      t.Does index e (t.ensureCapacity index count) := by
  unfold ensureCapacity
  rw [checkLimit_congr hconfig, hconfig, h]
  rcases s.checkLimit index count with e | u
  · exact ⟨_, s.does_nothing index _, t.does_nothing index _⟩
  · rcases hc : s.chunk? index with _ | c
    · rw [hfirst hc]
      rcases s.config.reuseAcrossChunks with _ | _
      · exact ⟨_, s.does_nothing index _, t.does_nothing index _⟩
      · rcases s.chunk? 0 with _ | template
        · exact ⟨_, s.does_nothing index _, t.does_nothing index _⟩
        · dsimp only
          rcases template.grow index count with e | d
          · exact ⟨_, s.does_nothing index _, t.does_nothing index _⟩
          · exact ⟨_, s.does_reuse index _ d, t.does_reuse index _ d⟩
    · dsimp only
      split
      · exact ⟨_, s.does_nothing index _, t.does_nothing index _⟩
      · split
        · exact ⟨_, s.does_nothing index _, t.does_nothing index _⟩
        · rcases c.grow index count with e | d
          · exact ⟨_, s.does_nothing index _, t.does_nothing index _⟩
          · exact ⟨_, s.does_reuse index _ d, t.does_reuse index _ d⟩

/-! ## Either order -/

/-- The call makes room in a chunk that is absent, so it is chunk 0 that it reads. -/
def ReadsFirst (s : Store) : Action → Prop
  | .ensureCapacity index _ => s.chunk? index = none
  | _ => False

/-- The stores are the same in all that the call about chunk `index` reads. -/
structure SameFor (a : Action) (index : ℕ) (s t : Store) : Prop where
  config : t.config = s.config
  chunk : t.chunk? index = s.chunk? index
  first : s.ReadsFirst a → t.chunk? 0 = s.chunk? 0

theorem Does.map {α β : Type} {index : ℕ} {e : Effect α} {r : α × Store} (h : s.Does index e r)
    (f : α → β) : s.Does index ⟨f e.result, e.placed, e.counted⟩ (r.map f id) :=
  ⟨congrArg f h.result, h.config, h.chunks, h.counters⟩

/-- A call has one effect on all stores that are the same to it, whenever it is made. -/
theorem exists_does_act {a : Action} {index : ℕ} (ha : a.target? = some index)
    (h : SameFor a index s t) (now later : Instant) :
    ∃ e, s.Does index e (s.act now a) ∧ t.Does index e (t.act later a) := by
  cases a with
  | insert i job ps =>
    obtain rfl := Option.some.inj ha
    obtain ⟨e, hs, ht⟩ := exists_does_insert h.config now later i job ps
    exact ⟨_, hs.map Outcome.changed, ht.map Outcome.changed⟩
  | ensureCapacity i count =>
    obtain rfl := Option.some.inj ha
    obtain ⟨e, hs, ht⟩ := exists_does_ensureCapacity h.config h.chunk h.first count
    exact ⟨_, hs.map Outcome.changed, ht.map Outcome.changed⟩
  | patchInPlace i ps =>
    obtain rfl := Option.some.inj ha
    obtain ⟨e, hs, ht⟩ := exists_does_patchInPlace h.chunk ps
    exact ⟨_, hs.map Outcome.patched, ht.map Outcome.patched⟩
  | lookup | patch | patchCopy | clear | reload | restart | cycle | loadBytes | overwrite =>
    cases ha

/-- To a call about another chunk the store is the same after this one. -/
theorem sameFor_act {a b : Action} {i j : ℕ} (hij : i ≠ j) (hb : b.target? = some j)
    (hfirst : ¬(s.ReadsFirst a ∧ j = 0)) (now : Instant) : SameFor a i s (s.act now b).2 := by
  obtain ⟨e, hdoes, -⟩ := exists_does_act hb ⟨rfl, rfl, fun _ => rfl⟩ now now
  have hothers : s.KeepsOthers (s.act now b).2 j := hdoes.keepsOthers
  refine ⟨hdoes.config, hothers.chunks i hij, fun hreads => hothers.chunks 0 ?_⟩
  exact fun hj => hfirst ⟨hreads, hj.symm⟩

/-- Two calls about different chunks give the same results and leave the same chunks, gaps and
counters in either order, unless one of them copies chunk 0 and the other one is about it. -/
theorem act_comm (s : Store) {a b : Action} {i j : ℕ} (hij : i ≠ j) (ha : a.target? = some i)
    (hb : b.target? = some j) (haj : ¬(s.ReadsFirst a ∧ j = 0)) (hbi : ¬(s.ReadsFirst b ∧ i = 0))
    (now later now' later' : Instant) :
    let sa := s.act now a
    let sab := sa.2.act later b
    let sb := s.act now' b
    let sba := sb.2.act later' a
    sa.1 = sba.1 ∧ sab.1 = sb.1 ∧ sab.2.chunks = sba.2.chunks ∧
      sab.2.counters = sba.2.counters := by
  intro sa sab sb sba
  obtain ⟨e, hsa, hsba⟩ := exists_does_act ha (sameFor_act hij hb haj now') now later'
  obtain ⟨f, hsb, hsab⟩ := exists_does_act hb (sameFor_act hij.symm ha hbi now) now' later
  refine ⟨hsa.result.trans hsba.result.symm, hsab.result.trans hsb.result.symm, ?_, ?_⟩
  · rw [hsab.chunks, hsa.chunks, hsba.chunks, hsb.chunks]
    exact Effect.place_comm hij e f s.chunks
  · rw [hsab.counters, hsa.counters, hsba.counters, hsb.counters]
    exact Counters.plus_right_comm _ _ _

end Store

namespace Example

/-- Chunk 1 is given a second slot and chunk 3 is inserted, in either order. -/
theorem act_comm_rotation :
    let s := (Store.opened {} .none).run [(noon, .insert 1 rotationJob [rotation])]
    let room := Action.ensureCapacity 1 2
    let other := Action.insert 3 rotationJob [rotation]
    (room.target? = some 1 ∧ other.target? = some 3) ∧
      (¬(s.ReadsFirst room ∧ 3 = 0) ∧ ¬(s.ReadsFirst other ∧ 1 = 0)) ∧
      ((s.act noon room).2.act noon other).2.chunks[1]? = some (some rotationChunk) ∧
      ((s.act noon room).2.act noon other).2.chunks =
        ((s.act noon other).2.act noon room).2.chunks := by
  intro s room other
  have hroom : ¬(s.ReadsFirst room ∧ 3 = 0) := by simp
  have hother : ¬(s.ReadsFirst other ∧ 1 = 0) := by simp
  refine ⟨⟨rfl, rfl⟩, ⟨hroom, hother⟩, by decide +kernel, ?_⟩
  exact (s.act_comm (by decide) rfl rfl hroom hother noon noon noon noon).2.2.1

end Example

end CircuitCache
