import Mathlib
import CircuitCache.Proofs.Commuting
import CircuitCache.Proofs.Failures
import CircuitCache.Proofs.Outside

/-!
# What the counters count

A call that was made is known by its arguments, its result and the stores before and after it
(`Event`).  The counters of a store are a tally of the calls since it was opened or cleared last: one
lemma says what a call adds to the counters, and the tally of a run follows from the end of the run.
-/

namespace CircuitCache

/-- A call that was made. -/
structure Event where
  before : Store
  action : Action
  outcome : Outcome
  after : Store

namespace Event

/-- The call was a lookup that found its programs served. -/
def isHit (e : Event) : Bool :=
  match e.action, e.outcome with
  | .lookup .., .found hit => hit
  | _, _ => false

/-- The call was a lookup that did not. -/
def isMiss (e : Event) : Bool :=
  match e.action, e.outcome with
  | .lookup .., .found hit => !hit
  | _, _ => false

/-- An insert that succeeded. -/
def isInsert (e : Event) : Bool :=
  match e.action, e.outcome with
  | .insert .., .changed result => result.isOk
  | _, _ => false

/-- Making room, where that changed the chunks. -/
def isReuse (e : Event) : Bool :=
  match e.action with
  | .ensureCapacity .. => decide (e.after.chunks ≠ e.before.chunks)
  | _ => false

/-- A patch that succeeded, in a copy or in place. -/
def isPatch (e : Event) : Bool :=
  match e.outcome with
  | .patched result => result.isOk
  | _ => false

/-- The store was cleared, or opened anew. -/
def isFresh (e : Event) : Bool :=
  match e.action with
  | .clear => true
  | .restart => true
  | _ => false

/-- The calls since the store was opened or cleared last. -/
def recent (es : List Event) : List Event := es.rtakeWhile fun e => !e.isFresh

/-- How many calls of each kind there are. -/
def tally (es : List Event) : Counters where
  hits := es.countP isHit
  misses := es.countP isMiss
  inserts := es.countP isInsert
  reuses := es.countP isReuse
  patches := es.countP isPatch

theorem tally_append (es fs : List Event) : tally (es ++ fs) = (tally es).plus (tally fs) := by
  simp only [tally, Counters.plus, List.countP_append]

theorem tally_singleton (e : Event) :
    tally [e] = ⟨e.isHit.toNat, e.isMiss.toNat, e.isInsert.toNat, e.isReuse.toNat,
      e.isPatch.toNat⟩ := by
  simp only [tally, List.countP_singleton, Bool.cond_eq_ite, Bool.toNat]

end Event

namespace Store

/-- A call at a given time, as it is made. -/
def event (s : Store) (now : Instant) (a : Action) : Event :=
  ⟨s, a, (s.act now a).1, (s.act now a).2⟩

/-- The calls of a run, as they are made. -/
def events (s : Store) : List (Instant × Action) → List Event
  | [] => []
  | (now, a) :: rest => s.event now a :: events (s.act now a).2 rest

theorem events_append (s : Store) (before after : List (Instant × Action)) :
    s.events (before ++ after) = s.events before ++ (s.run before).events after := by
  induction before generalizing s with
  | nil => rfl
  | cons call rest ih => exact congrArg (s.event call.1 call.2 :: ·) (ih _)

/-! ## One call -/

variable (s : Store)

/-- Whenever room is made by copying, the chunks change. -/
theorem ensureCapacity_cases_chunks (index count : ℕ) :
    (s.ensureCapacity index count).2 = s ∨
      (∃ c, (s.ensureCapacity index count).2 = s.reuse index c ∧
        (s.reuse index c).chunks ≠ s.chunks) := by
  rcases s.ensureCapacity_cases index count with
    ⟨e, heq⟩ | heq | ⟨source, template, c, -, hlimit, hgrow, heq⟩
  · exact .inl (congrArg Prod.snd heq)
  · exact .inl (congrArg Prod.snd heq)
  · refine .inr ⟨c, congrArg Prod.snd heq, fun hsame => ?_⟩
    -- Had the chunk been there already, there would have been room.
    have hc : s.chunk? index = some c := chunk?_of_place hsame.symm
    have hle : count ≤ c.slotCount := by
      rw [Chunk.slotCount_of_grow hgrow]
      exact le_max_left count template.slotCount
    rw [s.ensureCapacity_of_le hc hle hlimit] at heq
    have hreuses := congrArg (·.2.counters.reuses) heq
    simp [reuse] at hreuses

theorem counters_lookup (index : ℕ) (ps : List Program) :
    (s.lookup index ps).2.counters = s.counters.plus
      { hits := (s.lookup index ps).1.toNat, misses := (!(s.lookup index ps).1).toNat } := by
  unfold lookup
  split <;> rfl

theorem counters_insert (now : Instant) (index : ℕ) (job : Job) (ps : List Program) :
    (s.insert now index job ps).2.counters =
      s.counters.plus { inserts := (s.insert now index job ps).1.isOk.toNat } := by
  rcases s.insert_cases now index job ps with ⟨e, heq⟩ | ⟨c, -, -, heq⟩
  · rw [heq]
    rfl
  · rw [heq]
    rfl

theorem counters_ensureCapacity (index count : ℕ) :
    (s.ensureCapacity index count).2.counters = s.counters.plus
      { reuses := (decide ((s.ensureCapacity index count).2.chunks ≠ s.chunks)).toNat } := by
  rcases s.ensureCapacity_cases_chunks index count with heq | ⟨c, heq, hchunks⟩
  · rw [heq, decide_eq_false (not_not.2 rfl)]
    rfl
  · rw [heq, decide_eq_true hchunks]
    rfl

theorem counters_patchCopy (index : ℕ) (ps : List Program) :
    (s.patchCopy index ps).2.counters =
      s.counters.plus { patches := (s.patchCopy index ps).1.isOk.toNat } := by
  rcases s.patchCopy_cases index ps with ⟨e, heq⟩ | ⟨c, subJobs, -, -, heq⟩
  · rw [heq]
    rfl
  · rw [heq]
    rfl

theorem counters_patchInPlace (index : ℕ) (ps : List Program) :
    (s.patchInPlace index ps).2.counters =
      s.counters.plus { patches := (s.patchInPlace index ps).1.isOk.toNat } := by
  rcases s.patchInPlace_cases index ps with ⟨e, heq⟩ | ⟨c, d, -, -, heq⟩
  · rw [heq]
    rfl
  · rw [heq]
    rfl

theorem counters_patch (index : ℕ) (ps : List Program) :
    (s.patch index ps).2.counters =
      s.counters.plus { patches := (s.patch index ps).1.isOk.toNat } := by
  rcases s.patch_cases index ps with hmode | hmode
  · rw [hmode]
    exact s.counters_patchCopy index ps
  · rw [hmode]
    exact s.counters_patchInPlace index ps

theorem counters_loadBytes (bytes : Bytes) : (s.loadBytes bytes).2.counters = s.counters := by
  rcases s.loadBytes_cases bytes with ⟨e, -, heq⟩ | ⟨snapshot, -, heq⟩
  · rw [heq]
  · rw [heq]

/-- A call adds what it counts for; clearing and opening anew begin at zero. -/
theorem counters_act (now : Instant) (a : Action) :
    (s.act now a).2.counters =
      if (s.event now a).isFresh then {} else s.counters.plus (Event.tally [s.event now a]) := by
  rw [Event.tally_singleton]
  cases a with
  | lookup index ps => exact s.counters_lookup index ps
  | insert index job ps => exact s.counters_insert now index job ps
  | ensureCapacity index count => exact s.counters_ensureCapacity index count
  | patch index ps => exact s.counters_patch index ps
  | patchCopy index ps => exact s.counters_patchCopy index ps
  | patchInPlace index ps => exact s.counters_patchInPlace index ps
  | cycle =>
    rw [event, act]
    -- The bytes are not to be evaluated.
    generalize s.toBytes now = bytes
    exact s.counters_loadBytes bytes
  | loadBytes bytes => exact s.counters_loadBytes bytes
  | clear | reload | restart | overwrite => rfl

/-! ## Runs -/

theorem counters_run (config : Config) (backing : Backing) (calls : List (Instant × Action)) :
    ((opened config backing).run calls).counters =
      Event.tally (Event.recent ((opened config backing).events calls)) := by
  -- From the end of the run: a call either starts the count again or is the last one counted.
  induction calls using List.reverseRecOn with
  | nil => rfl
  | append_singleton before call ih =>
    have hevents : (opened config backing).events (before ++ [call]) =
        (opened config backing).events before ++
          [((opened config backing).run before).event call.1 call.2] :=
      events_append _ before [call]
    rw [run_append, hevents, Event.recent]
    show (((opened config backing).run before).act call.1 call.2).2.counters = _
    rw [counters_act]
    by_cases hfresh : (((opened config backing).run before).event call.1 call.2).isFresh = true
    · rw [if_pos hfresh, List.rtakeWhile_concat_neg _ _ _ (by simp [hfresh])]
      rfl
    · rw [if_neg hfresh, List.rtakeWhile_concat_pos _ _ _ (by simp [hfresh]), Event.tally_append,
        ih]
      rfl

/-- Neither reloading nor loading bytes counts, nor does a call that fails. -/
theorem counters_act_eq_self {now : Instant} {a : Action}
    (ha : a = .reload ∨ a = .cycle ∨ (∃ bytes, a = .loadBytes bytes) ∨
      (s.act now a).1.isError = true) :
    (s.act now a).2.counters = s.counters := by
  rcases ha with rfl | rfl | ⟨bytes, rfl⟩ | herror
  · rfl
  · rw [act, Prod.map_snd, id_eq, counters_loadBytes]
  · exact s.counters_loadBytes bytes
  · cases a with
    | overwrite bytes => rfl
    | _ => exact congrArg counters (act_eq_self rfl herror)

/-! ## Sizes -/

/-- Sums over the chunks that are present, by their indices. -/
theorem sum_map_present (f : Chunk → ℕ) :
    (s.present.map f).sum = ∑ i ∈ Finset.range s.chunks.length, (s.chunk? i).elim 0 f := by
  simp only [present, chunk?]
  induction s.chunks with
  | nil => rfl
  | cons c rest ih =>
    rw [List.length_cons, Finset.sum_range_succ', List.filterMap_cons]
    simp only [List.getElem?_cons_succ, List.getElem?_cons_zero, ← ih]
    cases c with
    | none => rfl
    | some c => exact add_comm _ _

theorem length_present :
    s.present.length = ((Finset.range s.chunks.length).filter fun i => (s.chunk? i).isSome).card := by
  have hones : s.present.length = (s.present.map fun _ => 1).sum := by simp
  rw [hones, sum_map_present, Finset.card_filter]
  refine Finset.sum_congr rfl fun i _ => ?_
  cases s.chunk? i <;> rfl

theorem slotCount_eq_sum : s.slotCount =
    ∑ i ∈ Finset.range s.chunks.length, (s.chunk? i).elim 0 Chunk.slotCount := by
  rw [← sum_map_present, List.sum, List.foldr_map, slotCount]

/-! ## All statistics -/

/-- At every point of every run the counters are the numbers of hits, of misses, of successful
inserts, of requests for room that changed the chunks and of successful patches since the store was
opened or cleared last; reloading, loading bytes and calls that fail leave them alone.  The sizes are
the number of indices with a chunk and the sum of the slots there. -/
theorem stats_of_run (config : Config) (backing : Backing) (calls : List (Instant × Action)) :
    let s := (opened config backing).run calls
    s.stats.counters = Event.tally (Event.recent ((opened config backing).events calls)) ∧
    s.stats.chunks = ((Finset.range s.chunks.length).filter fun i => (s.chunk? i).isSome).card ∧
    s.stats.slots = ∑ i ∈ Finset.range s.chunks.length, (s.chunk? i).elim 0 Chunk.slotCount ∧
    ∀ now a, a = .reload ∨ a = .cycle ∨ (∃ bytes, a = .loadBytes bytes) ∨
        (s.act now a).1.isError = true →
      (s.act now a).2.stats.counters = s.stats.counters := by
  intro s
  exact ⟨counters_run config backing calls, s.length_present, s.slotCount_eq_sum,
    fun _ _ ha => s.counters_act_eq_self ha⟩

end Store

namespace Example

/-- What came before the store was cleared is forgotten; room that was there already, a patch that
fails and reloading do not count. -/
theorem stats_after_clear :
    let calls := [(noon, .insert 0 rotationJob [rotation]), (noon, .clear),
      (noon, .insert 0 rotationJob [rotation]), (noon, .lookup 0 [otherRotation]),
      (noon, .lookup 2 [rotation]), (noon, .ensureCapacity 2 2), (noon, .ensureCapacity 2 1),
      (noon, .patch 2 [otherRotation]), (noon, Action.patch 0 [.ofOperations "idle" []])]
    let s := (Store.opened {} (.memory none)).run calls
    s.stats.counters = ⟨1, 1, 1, 1, 1⟩ ∧ s.stats.chunks = 2 ∧ s.stats.slots = 3 ∧
      s.reload.stats.counters = ⟨1, 1, 1, 1, 1⟩ := by
  intro calls s
  obtain ⟨hcounters, hchunks, hslots, hsame⟩ := Store.stats_of_run {} (.memory none) calls
  have htally : s.stats.counters = ⟨1, 1, 1, 1, 1⟩ := hcounters.trans (by decide +kernel)
  exact ⟨htally, hchunks.trans (by decide +kernel), hslots.trans (by decide +kernel),
    (hsame noon .reload (.inl rfl)).trans htally⟩

end Example

end CircuitCache
