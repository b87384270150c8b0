import Mathlib
import CircuitCache.Proofs.Commuting
import CircuitCache.Proofs.Outside

/-!
# What an insert caches

An insert caches a job for a batch of programs that is within the limit, when the job has one sub-job
for each program and a mapping can be built in every slot.  The chunk is then determined by the job
and the batch (`Chunk.Caches`), whatever was at its index before.  Otherwise the error tells of the
first of these conditions that fails, and of the lowest slot without a mapping (`Store.RefusesJob`).
-/

namespace CircuitCache

/-- A mapping can be built in slot `i`, as far as there are a program and a sub-job for it. -/
def HasMapping (ps : List Program) (ss : List SubJob) (i : ℕ) : Prop :=
  ∀ p s, ps[i]? = some p → ss[i]? = some s → ∃ m, Mapping.build i p s = .ok m

/-- The chunk holds the sub-jobs of the job without their listings, and in each slot the mapping that
is built for its program and the key of that program. -/
structure Chunk.Caches (c : Chunk) (job : Job) (ps : List Program) : Prop where
  backend : c.job.backend = job.backend
  subJobs : c.job.subJobs = job.subJobs.map fun s => { s with listing := none }
  keys : c.keys = ps.map Key.ofProgram
  length : c.mappings.length = ps.length
  mappings : ∀ i p s, ps[i]? = some p → job.subJobs[i]? = some s →
    ∃ m, Mapping.build i p s = .ok m ∧ c.mappings[i]? = some m

namespace Store

/-- Why the job is not cached at the index for these programs. -/
inductive RefusesJob (s : Store) (index : ℕ) (job : Job) (ps : List Program) : CacheError → Prop
  | limit (h : s.config.submissionSizeLimit < ps.length) :
    RefusesJob s index job ps (.shapeMismatch index ps.length s.config.submissionSizeLimit)
  | count (hlimit : ps.length ≤ s.config.submissionSizeLimit)
    (h : job.subJobs.length ≠ ps.length) :
    RefusesJob s index job ps (.structuralMismatch (min ps.length job.subJobs.length)
      (.slotCount job.subJobs.length ps.length))
  | slot (hlimit : ps.length ≤ s.config.submissionSizeLimit)
    (hcount : job.subJobs.length = ps.length) {i : ℕ} {p : Program} {sub : SubJob} {e : CacheError}
    (hp : ps[i]? = some p) (hsub : job.subJobs[i]? = some sub) (h : Mapping.build i p sub = .error e)
    (hbefore : ∀ j < i, HasMapping ps job.subJobs j) :
    RefusesJob s index job ps e

/-! ## Mappings of all slots -/

/-- No mappings are built when one cannot be, and the error is that of the lowest slot without. -/
theorem buildMappings_eq_error_iff {slot : ℕ} {ps : List Program} {ss : List SubJob}
    {e : CacheError} : buildMappings slot ps ss = .error e ↔
      ∃ i p s, ps[i]? = some p ∧ ss[i]? = some s ∧ Mapping.build (slot + i) p s = .error e ∧
        ∀ j < i, ∀ q t, ps[j]? = some q → ss[j]? = some t →
          ∃ m, Mapping.build (slot + j) q t = .ok m := by
  induction ps generalizing slot ss with
  | nil => simp [buildMappings]
  | cons p ps ih =>
    cases ss with
    | nil => simp [buildMappings]
    | cons s ss =>
      have hfirst : (∀ q t, p = q → s = t → ∃ m, Mapping.build slot q t = .ok m) ↔
          ∃ m, Mapping.build slot p s = .ok m :=
        ⟨fun h => h p s rfl rfl, by rintro h _ _ rfl rfl; exact h⟩
      -- The lowest slot is the first one, or the first one has a mapping and it is the lowest of the
      -- others.
      rw [buildMappings, ← Nat.or_exists_add_one]
      simp only [List.getElem?_cons_zero, List.getElem?_cons_succ, Option.some.injEq,
        exists_and_left, exists_eq_left', Nat.forall_lt_succ_left, Nat.add_zero, Nat.not_lt_zero,
        false_implies, implies_true, and_true, ← Nat.add_assoc, hfirst]
      rcases hm : Mapping.build slot p s with e' | m
      · simp
      · simp only [reduceCtorEq, false_or, Except.ok.injEq, exists_eq', true_and,
          ← Nat.add_right_comm slot 1, ← exists_and_left, ← ih]
        rcases buildMappings (slot + 1) ps ss with e' | rest <;> simp

/-- What is cached for a job is determined by the job and its programs. -/
theorem caches_of_compiled {job : Job} {ps : List Program} {c : Chunk}
    (h : compiled job ps = .ok c) : job.subJobs.length = ps.length ∧ c.Caches job ps := by
  obtain ⟨hlength, xs, hxs, rfl⟩ := compiled_eq_ok_iff.1 h
  obtain ⟨hsubJobs, hkeys⟩ := map_subJob_of_isCompiled hlength hxs
  refine ⟨hlength.symm, rfl, hsubJobs, hkeys, ?_, fun i p s hp hs => ?_⟩
  · exact slotCount_of_compiled h
  · have hzip : (ps.zip job.subJobs)[i]? = some (p, s) := List.getElem?_zip_eq_some.2 ⟨hp, hs⟩
    obtain ⟨hi, hget⟩ := List.getElem?_eq_some_iff.1 hzip
    have hi' : i < xs.length := hxs.length_eq ▸ hi
    have hslot : Slot.IsCompiled p s xs[i] := by simpa [hget] using hxs.get hi hi'
    obtain ⟨order, horder, hx⟩ := hslot
    refine ⟨_, Mapping.build_eq_ok_iff.2 ⟨order, horder, rfl⟩, ?_⟩
    rw [Chunk.ofSlots, List.getElem?_map, List.getElem?_eq_getElem hi', hx]
    rfl

/-- With one sub-job for each program, the error is that of the lowest slot without a mapping. -/
theorem compiled_eq_error_iff {job : Job} {ps : List Program} {e : CacheError}
    (hcount : job.subJobs.length = ps.length) : compiled job ps = .error e ↔
      ∃ i p s, ps[i]? = some p ∧ job.subJobs[i]? = some s ∧ Mapping.build i p s = .error e ∧
        ∀ j < i, HasMapping ps job.subJobs j := by
  have hbuild := @buildMappings_eq_error_iff 0 ps job.subJobs e
  simp only [Nat.zero_add] at hbuild
  rw [compiled, if_neg (not_not.2 hcount)]
  refine Iff.trans ?_ hbuild
  rcases buildMappings 0 ps job.subJobs with e' | ms <;> simp

theorem exists_compiled_iff {job : Job} {ps : List Program} :
    (∃ c, compiled job ps = .ok c) ↔
      job.subJobs.length = ps.length ∧ ∀ i, HasMapping ps job.subJobs i := by
  constructor
  · rintro ⟨c, hc⟩
    obtain ⟨hcount, hcaches⟩ := caches_of_compiled hc
    refine ⟨hcount, fun i p s hp hs => ?_⟩
    obtain ⟨m, hm, -⟩ := hcaches.mappings i p s hp hs
    exact ⟨m, hm⟩
  · rintro ⟨hcount, hmappings⟩
    rcases hcompiled : compiled job ps with e | c
    · obtain ⟨i, p, s, hp, hs, herror, -⟩ := (compiled_eq_error_iff hcount).1 hcompiled
      obtain ⟨m, hm⟩ := hmappings i p s hp hs
      simp [hm] at herror
    · exact ⟨c, rfl⟩

end Store

/-- Two chunks that cache a job for the same programs are the same. -/
theorem Chunk.Caches.unique {c d : Chunk} {job : Job} {ps : List Program}
    (hcount : job.subJobs.length = ps.length) (hc : c.Caches job ps) (hd : d.Caches job ps) :
    c = d := by
  have hmappings : c.mappings = d.mappings := by
    refine List.ext_getElem? fun i => ?_
    rcases hp : ps[i]? with _ | p
    · rw [List.getElem?_eq_none_iff] at hp
      rw [List.getElem?_eq_none (hc.length ▸ hp), List.getElem?_eq_none (hd.length ▸ hp)]
    · have hi : i < job.subJobs.length := hcount ▸ (List.getElem?_eq_some_iff.1 hp).1
      obtain ⟨m, hm, hmc⟩ := hc.mappings i p _ hp (List.getElem?_eq_getElem hi)
      obtain ⟨n, hn, hnd⟩ := hd.mappings i p _ hp (List.getElem?_eq_getElem hi)
      rw [hmc, hnd, Except.ok.inj (hm.symm.trans hn)]
  obtain ⟨⟨backend, subJobs⟩, mappings, keys⟩ := c
  obtain rfl : backend = d.job.backend := hc.backend.trans hd.backend.symm
  obtain rfl : subJobs = d.job.subJobs := hc.subJobs.trans hd.subJobs.symm
  obtain rfl : mappings = d.mappings := hmappings
  obtain rfl : keys = d.keys := hc.keys.trans hd.keys.symm
  rfl

/-! ## Stores -/

namespace Store

variable (s : Store) (now : Instant) (index : ℕ) (job : Job) (ps : List Program)

theorem insert_fst : (s.insert now index job ps).1 =
    if s.config.submissionSizeLimit < ps.length then
      .error (.shapeMismatch index ps.length s.config.submissionSizeLimit)
    else (compiled job ps).map fun _ => () := by
  rw [insert, checkLimit]
  split_ifs
  · rfl
  · rcases compiled job ps with e | c <;> rfl

theorem insert_fst_eq_ok_iff : (s.insert now index job ps).1 = .ok () ↔
    ps.length ≤ s.config.submissionSizeLimit ∧ job.subJobs.length = ps.length ∧
      ∀ i, HasMapping ps job.subJobs i := by
  rw [insert_fst, ← exists_compiled_iff]
  split_ifs with hlimit
  · simp [not_le.2 hlimit]
  · rw [and_iff_right (not_lt.1 hlimit)]
    rcases compiled job ps with e | c <;> simp [Except.map]

theorem insert_fst_eq_error_iff {e : CacheError} :
    (s.insert now index job ps).1 = .error e ↔ s.RefusesJob index job ps e := by
  rw [insert_fst]
  split_ifs with hlimit
  · constructor
    · intro h
      exact Except.error.inj h ▸ .limit hlimit
    · intro h
      cases h with
      | limit => rfl
      | count hle | slot hle => exact absurd hlimit (not_lt.2 hle)
  · have hle := not_lt.1 hlimit
    have hmap : (compiled job ps).map (fun _ => ()) = .error e ↔ compiled job ps = .error e := by
      rcases compiled job ps with e' | c <;> simp [Except.map]
    rw [hmap]
    by_cases hcount : job.subJobs.length = ps.length
    · rw [compiled_eq_error_iff hcount]
      constructor
      · rintro ⟨i, p, sub, hp, hsub, herror, hbefore⟩
        exact .slot hle hcount hp hsub herror hbefore
      · intro h
        cases h with
        | limit h => exact absurd h hlimit
        | count _ h => exact absurd hcount h
        | slot _ _ hp hsub herror hbefore => exact ⟨_, _, _, hp, hsub, herror, hbefore⟩
    · rw [compiled, if_pos hcount, Except.error.injEq]
      constructor
      · rintro rfl
        exact .count hle hcount
      · intro h
        cases h with
        | limit h => exact absurd h hlimit
        | count => rfl
        | slot _ h => exact absurd h hcount

/-- An insert succeeds exactly when the batch is within the limit, the job has one sub-job for each
program and a mapping can be built in every slot.  Then the chunk at the index is the one that caches
the job for the batch, and all other chunks and gaps are as before.  It fails exactly with the error
about the limit, else about the number of sub-jobs, else of the lowest slot without a mapping. -/
theorem insert_caches_or_refuses (s : Store) (now : Instant) (index : ℕ) (job : Job)
    (ps : List Program) :
    let r := s.insert now index job ps
    (r.1 = .ok () ↔ ps.length ≤ s.config.submissionSizeLimit ∧ job.subJobs.length = ps.length ∧
      ∀ i, HasMapping ps job.subJobs i) ∧
    (r.1 = .ok () → s.KeepsOthers r.2 index ∧
      ∃ c, r.2.chunk? index = some c ∧ ∀ d, d.Caches job ps ↔ d = c) ∧
    ∀ e, r.1 = .error e ↔ s.RefusesJob index job ps e := by
  intro r
  refine ⟨s.insert_fst_eq_ok_iff now index job ps, fun hok => ?_,
    fun e => s.insert_fst_eq_error_iff now index job ps⟩
  rcases s.insert_cases now index job ps with ⟨e, heq⟩ | ⟨c, -, hcompiled, heq⟩
  · rw [show r = _ from heq] at hok
    cases hok
  · obtain ⟨hcount, hcaches⟩ := caches_of_compiled hcompiled
    rw [show r = _ from heq]
    refine ⟨(s.does_insert index (.ok () : Except CacheError Unit) c now).keepsOthers, c,
      chunk?_of_place rfl, fun d => ?_⟩
    exact ⟨fun hd => hd.unique hcount hcaches, fun hd => hd ▸ hcaches⟩

end Store

namespace Example

/-- A job for two rotations whose first sub-job is empty and whose second one is too long. -/
def brokenJob : Job :=
  ⟨"device", [⟨"turn", [], none⟩, ⟨"turn", [⟨.rz, [0], [.zero]⟩, ⟨.x, [0], []⟩], none⟩]⟩

/-- A chunk with two slots is replaced by one with a single slot.  The broken job is refused for its
first sub-job. -/
theorem insert_replaces_rotationChunk :
    let s := (Store.opened {} .none).run
      [(noon, .insert 2 rotationJob [rotation]), (noon, .ensureCapacity 2 2)]
    let r := s.insert noon 2 rotationJob [rotation]
    s.chunk? 2 = some rotationChunk ∧ r.1 = .ok () ∧
    (∃ c, r.2.chunk? 2 = some c ∧ c.Caches rotationJob [rotation] ∧ c.slotCount = 1) ∧
    r.2.chunk? 1 = none ∧
    s.RefusesJob 2 brokenJob [rotation, rotation]
      (.structuralMismatch 0 (.missingInstruction ⟨.rz, [0]⟩ 0)) := by
  intro s r
  have hok : r.1 = .ok () := by decide +kernel
  have hbroken : (s.insert noon 2 brokenJob [rotation, rotation]).1 =
      .error (.structuralMismatch 0 (.missingInstruction ⟨.rz, [0]⟩ 0)) := by
    decide +kernel
  obtain ⟨hothers, c, hc, hcaches⟩ :=
    (s.insert_caches_or_refuses noon 2 rotationJob [rotation]).2.1 hok
  have hc' := (hcaches c).2 rfl
  exact ⟨rfl, hok, ⟨c, hc, hc', hc'.length⟩, hothers.chunks 1 (by decide),
    ((s.insert_caches_or_refuses noon 2 brokenJob [rotation, rotation]).2.2 _).1 hbroken⟩

end Example

end CircuitCache
