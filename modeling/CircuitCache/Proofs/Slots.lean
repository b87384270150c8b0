import Mathlib
import CircuitCache.Store
import CircuitCache.Proofs.Patching

/-!
# Chunks as lists of slots

A chunk with as many sub-jobs and keys as mappings is a list of slots (`Chunk.ofSlots`), and growing,
checking, patching and verifying are about its slots one by one.  A patch leaves the skeleton of
every slot: the shapes of its instructions, its listing, its mapping and its key.
-/

namespace CircuitCache

/-- A sub-job with its mapping and its key. -/
structure Slot where
  subJob : SubJob
  mapping : Mapping
  key : Key

/-- A slot without the name and the parameters of its sub-job. -/
structure Skeleton where
  shapes : List Shape
  listing : Option String
  mapping : Mapping
  key : Key

/-- A patch with the program passes the check: the mapping fits, and the key is that of the
program. -/
def Skeleton.Accepts (x : Skeleton) (p : Program) : Prop :=
  x.mapping.Fits x.shapes p.shapes ∧ x.key = Key.ofProgram p

namespace Slot

/-- The slot without the name and the parameters of its sub-job. -/
def skeleton (x : Slot) : Skeleton := ⟨x.subJob.shapes, x.subJob.listing, x.mapping, x.key⟩

/-- The slot with the name and the parameters of a program. -/
def write (x : Slot) (p : Program) : Slot := { x with subJob := x.mapping.write x.subJob p }

theorem skeleton_write (x : Slot) (p : Program) : (x.write p).skeleton = x.skeleton := by
  have hshapes : (x.write p).subJob.shapes = x.subJob.shapes := Mapping.shapes_write _ _ p
  rw [skeleton, hshapes]
  rfl

/-- The first slots patched, each with its program. -/
def writeAll : List Slot → List Program → List Slot
  | x :: xs, p :: ps => x.write p :: writeAll xs ps
  | xs, _ => xs

theorem map_mapping_writeAll (xs : List Slot) (ps : List Program) :
    (writeAll xs ps).map mapping = xs.map mapping := by
  induction xs, ps using writeAll.induct with
  | case1 x xs p ps ih => rw [writeAll, List.map_cons, List.map_cons, ih]; rfl
  | case2 xs ps h => rw [writeAll]; exact h

theorem map_key_writeAll (xs : List Slot) (ps : List Program) :
    (writeAll xs ps).map key = xs.map key := by
  induction xs, ps using writeAll.induct with
  | case1 x xs p ps ih => rw [writeAll, List.map_cons, List.map_cons, ih]; rfl
  | case2 xs ps h => rw [writeAll]; exact h

/-- Writing leaves all skeletons. -/
theorem map_skeleton_writeAll (xs : List Slot) (ps : List Program) :
    (writeAll xs ps).map skeleton = xs.map skeleton := by
  induction xs, ps using writeAll.induct with
  | case1 x xs p ps ih => rw [writeAll, List.map_cons, List.map_cons, ih, skeleton_write]
  | case2 xs ps h => rw [writeAll]; exact h

/-- The slots with programs, patched. -/
theorem take_writeAll {xs : List Slot} {ps : List Program} (h : ps.length ≤ xs.length) :
    (writeAll xs ps).take ps.length = List.zipWith write xs ps := by
  induction xs, ps using writeAll.induct with
  | case1 x xs p ps ih =>
    rw [writeAll, List.length_cons, List.take_succ_cons, List.zipWith_cons_cons,
      ih (Nat.le_of_succ_le_succ h)]
  | case2 xs ps hempty =>
    cases ps with
    | nil => simp
    | cons p ps =>
      cases xs with
      | nil => simp at h
      | cons x xs => exact absurd rfl (hempty x xs p ps rfl)

end Slot

namespace Chunk

/-- The chunk with these slots. -/
def ofSlots (backend : String) (xs : List Slot) : Chunk :=
  ⟨⟨backend, xs.map Slot.subJob⟩, xs.map Slot.mapping, xs.map Slot.key⟩

/-- The slots of a chunk, as far as they have a sub-job, a mapping and a key. -/
def slots (c : Chunk) : List Slot :=
  List.zipWith (fun s (mk : Mapping × Key) => ⟨s, mk.1, mk.2⟩) c.job.subJobs
    (c.mappings.zip c.keys)

/-- There are as many sub-jobs and keys as mappings. -/
structure IsWhole (c : Chunk) : Prop where
  subJobs : c.job.subJobs.length = c.mappings.length
  keys : c.keys.length = c.mappings.length

theorem isWhole_ofSlots (backend : String) (xs : List Slot) : (ofSlots backend xs).IsWhole :=
  ⟨by simp [ofSlots], by simp [ofSlots]⟩

theorem slotCount_ofSlots (backend : String) (xs : List Slot) :
    (ofSlots backend xs).slotCount = xs.length := by
  simp [ofSlots, slotCount]

theorem slots_ofSlots (backend : String) (xs : List Slot) : (ofSlots backend xs).slots = xs := by
  induction xs with
  | nil => rfl
  | cons x xs ih => exact congrArg (x :: ·) ih

theorem IsWhole.ofSlots_slots {c : Chunk} (h : c.IsWhole) :
    ofSlots c.job.backend c.slots = c := by
  obtain ⟨⟨backend, ss⟩, ms, ks⟩ := c
  obtain ⟨hs, hk⟩ := h
  simp only at hs hk
  -- The three lists shrink together, so all of them are generalised.
  suffices ∀ (ss : List SubJob) (ms : List Mapping) (ks : List Key), ss.length = ms.length →
      ks.length = ms.length →
      ofSlots backend (slots ⟨⟨backend, ss⟩, ms, ks⟩) = ⟨⟨backend, ss⟩, ms, ks⟩ from
    this ss ms ks hs hk
  intro ss ms ks hs hk
  induction ms generalizing ss ks with
  | nil =>
    rw [List.length_nil, List.length_eq_zero_iff] at hs hk
    rw [hs, hk]
    rfl
  | cons m ms ih =>
    obtain ⟨s, ss, rfl⟩ := List.exists_cons_of_length_eq_add_one hs
    obtain ⟨k, ks, rfl⟩ := List.exists_cons_of_length_eq_add_one hk
    have hrest := ih ss ks (Nat.succ.inj hs) (Nat.succ.inj hk)
    simp only [ofSlots, slots, Chunk.mk.injEq, Job.mk.injEq, true_and] at hrest ⊢
    obtain ⟨h1, h2, h3⟩ := hrest
    exact ⟨congrArg (s :: ·) h1, congrArg (m :: ·) h2, congrArg (k :: ·) h3⟩

/-- A whole chunk is made of slots. -/
theorem IsWhole.exists_slots {c : Chunk} (h : c.IsWhole) : ∃ backend xs, c = ofSlots backend xs :=
  ⟨c.job.backend, c.slots, h.ofSlots_slots.symm⟩

/-! ## Looking and verifying -/

theorem serves_ofSlots_iff {backend : String} {xs : List Slot} {ps : List Program} :
    (ofSlots backend xs).serves ps = true ↔
      ps.length ≤ xs.length ∧ ∀ xp ∈ xs.zip ps, xp.1.key = Key.ofProgram xp.2 := by
  have hzip : (∀ pk ∈ ps.zip (xs.map Slot.key), decide (Key.ofProgram pk.1 = pk.2) = true) ↔
      ∀ xp ∈ xs.zip ps, xp.1.key = Key.ofProgram xp.2 := by
    rw [List.zip_map_right, List.forall_mem_map, ← List.zip_swap, List.forall_mem_map]
    simp only [decide_eq_true_eq]
    exact forall₂_congr fun xp _ => eq_comm
  rw [serves, Bool.and_eq_true, decide_eq_true_eq, slotCount_ofSlots, List.all_eq_true]
  exact and_congr_right fun _ => hzip

theorem verifyMappings_eq_ok_iff {slot : Nat} {xs : List Slot} :
    verifyMappings slot (xs.map Slot.mapping) (xs.map Slot.subJob) = .ok () ↔
      ∀ x ∈ xs, x.mapping.Covers x.subJob.shapes := by
  induction xs generalizing slot with
  | nil => simp [verifyMappings]
  | cons x xs ih =>
    rw [List.map_cons, List.map_cons, verifyMappings, List.forall_mem_cons,
      ← @Mapping.verify_eq_ok_iff slot, ← @ih (slot + 1)]
    rcases x.mapping.verify slot x.subJob with e | u <;> simp

/-- Verification accepts the chunks of slots whose mappings cover their sub-jobs, and no others. -/
theorem verify_eq_ok_iff {c : Chunk} : c.verify = .ok () ↔
    c.IsWhole ∧ ∀ x ∈ c.slots, x.mapping.Covers x.subJob.shapes := by
  by_cases hwhole : c.IsWhole
  · obtain ⟨backend, xs, rfl⟩ := hwhole.exists_slots
    have hlength : ¬((ofSlots backend xs).job.subJobs.length ≠ (ofSlots backend xs).mappings.length ∨
        (ofSlots backend xs).job.subJobs.length ≠ (ofSlots backend xs).keys.length) := by
      rw [hwhole.subJobs, hwhole.keys]
      simp
    rw [verify, if_neg hlength, slots_ofSlots, ofSlots, verifyMappings_eq_ok_iff]
    exact ⟨fun h => ⟨hwhole, h⟩, And.right⟩
  · refine iff_of_false ?_ fun h => hwhole h.1
    rw [verify]
    split
    · simp
    · next h =>
      push Not at h
      exact absurd ⟨h.1, h.2.symm.trans h.1⟩ hwhole

/-! ## Growing -/

/-- Growing adds copies of the first slot. -/
theorem grow_ofSlots_eq_ok_iff {backend : String} {xs : List Slot} {index count : Nat} {d : Chunk} :
    (ofSlots backend xs).grow index count = .ok d ↔
      count ≤ xs.length ∧ d = ofSlots backend xs ∨
      xs.length < count ∧ ∃ x ∈ xs.head?, d = ofSlots backend (fill count x xs) := by
  rw [grow, slotCount_ofSlots]
  by_cases hcount : count ≤ xs.length
  · rw [if_pos hcount, Except.ok.injEq]
    simp [hcount, eq_comm]
  · rw [if_neg hcount]
    cases xs with
    | nil =>
      have hpos : count ≠ 0 := fun h => hcount (h ▸ Nat.le_refl 0)
      simp [ofSlots, hpos]
    | cons x xs =>
      have hfill : ofSlots backend (fill count x (x :: xs)) =
          ⟨⟨backend, fill count x.subJob ((x :: xs).map Slot.subJob)⟩,
            fill count x.mapping ((x :: xs).map Slot.mapping),
            fill count x.key ((x :: xs).map Slot.key)⟩ := by
        simp [ofSlots, fill]
      simp only [List.head?_cons, Option.mem_def, Option.some.injEq, exists_eq_left', hfill]
      simp only [ofSlots, List.map_cons, Except.ok.injEq]
      constructor
      · rintro rfl
        exact .inr ⟨by omega, rfl⟩
      · rintro (⟨h, -⟩ | ⟨-, rfl⟩)
        · exact absurd h hcount
        · rfl

/-- A slot of a grown chunk was there before. -/
theorem mem_of_mem_fill {α : Type} {count : Nat} {x y : α} {xs : List α} (hx : x ∈ xs)
    (h : y ∈ fill count x xs) : y ∈ xs := by
  rcases List.mem_append.1 h with h | h
  · exact h
  · rw [List.eq_of_mem_replicate h]
    exact hx

/-! ## Patching -/

theorem checkSlots_eq_ok_iff {slot : Nat} {xs : List Slot} {ps : List Program} :
    checkSlots slot (xs.map Slot.subJob) (xs.map Slot.mapping) (xs.map Slot.key) ps = .ok () ↔
      ∀ xp ∈ xs.zip ps, xp.1.skeleton.Accepts xp.2 := by
  induction xs generalizing slot ps with
  | nil => simp [checkSlots]
  | cons x xs ih =>
    cases ps with
    | nil => simp [checkSlots]
    | cons p ps =>
      rw [List.map_cons, List.map_cons, List.map_cons, checkSlots, List.zip_cons_cons,
        List.forall_mem_cons, Skeleton.Accepts, Slot.skeleton,
        ← @Mapping.firstFault?_eq_none_iff slot, ← @ih (slot + 1) ps]
      rcases x.mapping.firstFault? slot x.subJob p with _ | e
      · by_cases hkey : x.key = Key.ofProgram p <;> simp [hkey]
      · simp

/-- A check needs no more sub-jobs than programs. -/
theorem checkSlots_take (slot : Nat) (ss : List SubJob) (ms : List Mapping) (ks : List Key)
    (ps : List Program) :
    checkSlots slot (ss.take ps.length) ms ks ps = checkSlots slot ss ms ks ps := by
  induction ps generalizing slot ss ms ks with
  | nil => cases ss <;> cases ms <;> simp [checkSlots]
  | cons p ps ih =>
    cases ss with
    | nil => rfl
    | cons s ss =>
      cases ms with
      | nil => rfl
      | cons m ms =>
        simp only [List.length_cons, List.take_succ_cons, checkSlots, ih]

/-- Writing to the sub-jobs of the programs alone writes the same. -/
theorem writeSlots_take (ss : List SubJob) (ms : List Mapping) (ps : List Program) :
    writeSlots (ss.take ps.length) ms ps = (writeSlots ss ms ps).take ps.length := by
  induction ps generalizing ss ms with
  | nil => cases ss <;> cases ms <;> simp [writeSlots]
  | cons p ps ih =>
    cases ss with
    | nil => cases ms <;> rfl
    | cons s ss =>
      cases ms with
      | nil => simp [writeSlots]
      | cons m ms =>
        rw [List.length_cons, List.take_succ_cons, writeSlots, writeSlots, List.take_succ_cons, ih]

theorem writeSlots_map (xs : List Slot) (ps : List Program) :
    writeSlots (xs.map Slot.subJob) (xs.map Slot.mapping) ps =
      (Slot.writeAll xs ps).map Slot.subJob := by
  induction xs generalizing ps with
  | nil => cases ps <;> rfl
  | cons x xs ih =>
    cases ps with
    | nil => rfl
    | cons p ps =>
      rw [List.map_cons, List.map_cons, writeSlots, ih]
      rfl

theorem patchInPlace_eq_ok {c d : Chunk} {index : Nat} {ps : List Program}
    (h : c.patchInPlace index ps = .ok d) : ps.length ≤ c.slotCount ∧
      d = { c with job.subJobs := writeSlots c.job.subJobs c.mappings ps } := by
  unfold patchInPlace at h
  split at h
  · cases h
  · next hle =>
    split at h
    · cases h
    · exact ⟨Nat.not_lt.1 hle, (Except.ok.inj h).symm⟩

/-- Both ways of patching accept the same programs and give the same sub-jobs. -/
theorem patchCopy_eq_map (c : Chunk) (index : Nat) (ps : List Program) :
    c.patchCopy index ps =
      (c.patchInPlace index ps).map fun d => d.job.subJobs.take ps.length := by
  rw [patchCopy, patchInPlace]
  by_cases h : c.slotCount < ps.length
  · rw [if_pos h, if_pos h]
    rfl
  · rw [if_neg h, if_neg h]
    simp only [checkSlots_take, writeSlots_take]
    rcases checkSlots 0 c.job.subJobs c.mappings c.keys ps with e | u <;> rfl

theorem ofSlots_writeAll (backend : String) (xs : List Slot) (ps : List Program) :
    ofSlots backend (Slot.writeAll xs ps) =
      ⟨⟨backend, writeSlots (xs.map Slot.subJob) (xs.map Slot.mapping) ps⟩,
        xs.map Slot.mapping, xs.map Slot.key⟩ := by
  rw [writeSlots_map, ofSlots, Slot.map_mapping_writeAll, Slot.map_key_writeAll]

/-- A patch counts the slots, checks them, and then writes them. -/
theorem patchInPlace_ofSlots (backend : String) (xs : List Slot) (index : Nat) (ps : List Program) :
    (ofSlots backend xs).patchInPlace index ps =
      if xs.length < ps.length then .error (.shapeMismatch index ps.length xs.length)
      else (checkSlots 0 (xs.map Slot.subJob) (xs.map Slot.mapping) (xs.map Slot.key) ps).map
        fun _ => ofSlots backend (Slot.writeAll xs ps) := by
  rw [patchInPlace, slotCount_ofSlots, ofSlots_writeAll]
  split
  · rfl
  · rw [ofSlots]
    rcases checkSlots 0 (xs.map Slot.subJob) (xs.map Slot.mapping) (xs.map Slot.key) ps with e | u
      <;> rfl

/-- A patch succeeds when there are slots enough and each accepts its program. -/
theorem patchInPlace_ofSlots_eq_ok_iff {backend : String} {xs : List Slot} {index : Nat}
    {ps : List Program} {d : Chunk} :
    (ofSlots backend xs).patchInPlace index ps = .ok d ↔
      ps.length ≤ xs.length ∧ (∀ xp ∈ xs.zip ps, xp.1.skeleton.Accepts xp.2) ∧
        d = ofSlots backend (Slot.writeAll xs ps) := by
  rw [patchInPlace_ofSlots, ← @checkSlots_eq_ok_iff 0]
  by_cases h : xs.length < ps.length
  · rw [if_pos h]
    simp [h]
  · rw [if_neg h]
    rcases checkSlots 0 (xs.map Slot.subJob) (xs.map Slot.mapping) (xs.map Slot.key) ps with e | u
    · simp [Except.map]
    · simp [Except.map, Nat.not_lt.1 h, eq_comm]

/-- A patched copy has the sub-jobs of the programs alone. -/
theorem patchCopy_ofSlots_eq_ok_iff {backend : String} {xs : List Slot} {index : Nat}
    {ps : List Program} {ss : List SubJob} :
    (ofSlots backend xs).patchCopy index ps = .ok ss ↔
      ps.length ≤ xs.length ∧ (∀ xp ∈ xs.zip ps, xp.1.skeleton.Accepts xp.2) ∧
        ss = (List.zipWith Slot.write xs ps).map Slot.subJob := by
  rw [patchCopy_eq_map]
  constructor
  · intro h
    rcases hpatch : (ofSlots backend xs).patchInPlace index ps with e | d
    · simp [hpatch, Except.map] at h
    · obtain ⟨hle, haccepts, rfl⟩ := patchInPlace_ofSlots_eq_ok_iff.1 hpatch
      rw [hpatch, Except.map, Except.ok.injEq, ofSlots, ← List.map_take,
        Slot.take_writeAll hle] at h
      exact ⟨hle, haccepts, h.symm⟩
  · rintro ⟨hle, haccepts, rfl⟩
    rw [patchInPlace_ofSlots_eq_ok_iff.2 ⟨hle, haccepts, rfl⟩, Except.map, ofSlots,
      ← List.map_take, Slot.take_writeAll hle]

end Chunk

/-! ## Compiling -/

/-- The slot that caches a program and its compiled form: there is a pairing, and the mapping is read
off it. -/
def Slot.IsCompiled (p : Program) (s : SubJob) (x : Slot) : Prop :=
  ∃ order, IsPairing p.shapes s.shapes order ∧
    x = ⟨s.unlisted, Mapping.ofOrder p.shapes order, Key.ofProgram p⟩

namespace Store

theorem buildMappings_eq_ok_iff {slot : Nat} {ps : List Program} {ss : List SubJob}
    {ms : List Mapping} (h : ps.length = ss.length) :
    buildMappings slot ps ss = .ok ms ↔
      ∃ xs, List.Forall₂ (fun (y : Program × SubJob) x => Slot.IsCompiled y.1 y.2 x)
        (ps.zip ss) xs ∧ ms = xs.map Slot.mapping := by
  induction ps generalizing slot ss ms with
  | nil => simp [buildMappings, eq_comm]
  | cons p ps ih =>
    obtain ⟨s, ss, rfl⟩ := List.exists_cons_of_length_eq_add_one h.symm
    have hlen : ps.length = ss.length := Nat.succ.inj h
    rw [buildMappings, List.zip_cons_cons]
    constructor
    · intro hok
      rcases hm : Mapping.build slot p s with e | m
      · simp [hm] at hok
      · rcases hrest : buildMappings (slot + 1) ps ss with e | rest
        · simp [hm, hrest] at hok
        · simp only [hm, hrest, Except.ok.injEq] at hok
          obtain ⟨order, horder, rfl⟩ := Mapping.build_eq_ok_iff.1 hm
          obtain ⟨xs, hxs, rfl⟩ := (ih hlen).1 hrest
          exact ⟨⟨s.unlisted, _, Key.ofProgram p⟩ :: xs, .cons ⟨order, horder, rfl⟩ hxs, hok.symm⟩
    · rintro ⟨_, hall, rfl⟩
      obtain ⟨x, xs, ⟨order, horder, rfl⟩, hxs, rfl⟩ := List.forall₂_cons_left_iff.1 hall
      rw [Mapping.build_eq_ok_iff.2 ⟨order, horder, rfl⟩,
        (ih hlen).2 ⟨xs, hxs, rfl⟩]
      rfl

theorem map_subJob_of_isCompiled {ps : List Program} {ss : List SubJob} {xs : List Slot}
    (h : ps.length = ss.length)
    (hxs : List.Forall₂ (fun (y : Program × SubJob) x => Slot.IsCompiled y.1 y.2 x)
      (ps.zip ss) xs) :
    xs.map Slot.subJob = ss.map SubJob.unlisted ∧ xs.map Slot.key = ps.map Key.ofProgram := by
  induction ps generalizing ss xs with
  | nil =>
    obtain rfl := List.length_eq_zero_iff.1 h.symm
    rw [List.forall₂_nil_left_iff.1 hxs]
    exact ⟨rfl, rfl⟩
  | cons p ps ih =>
    obtain ⟨s, ss, rfl⟩ := List.exists_cons_of_length_eq_add_one h.symm
    rw [List.zip_cons_cons] at hxs
    obtain ⟨x, rest, ⟨order, -, rfl⟩, hrest, rfl⟩ := List.forall₂_cons_left_iff.1 hxs
    obtain ⟨hsub, hkey⟩ := ih (Nat.succ.inj h) hrest
    exact ⟨congrArg (s.unlisted :: ·) hsub, congrArg (Key.ofProgram p :: ·) hkey⟩

/-- A job is cached exactly when it has a compiled form for each program, slot by slot. -/
theorem compiled_eq_ok_iff {job : Job} {ps : List Program} {c : Chunk} :
    compiled job ps = .ok c ↔ ps.length = job.subJobs.length ∧
      ∃ xs, List.Forall₂ (fun (y : Program × SubJob) x => Slot.IsCompiled y.1 y.2 x)
        (ps.zip job.subJobs) xs ∧ c = Chunk.ofSlots job.backend xs := by
  unfold compiled
  by_cases h : ps.length = job.subJobs.length
  · rw [if_neg (not_not.2 h.symm)]
    constructor
    · intro hok
      rcases hbuild : buildMappings 0 ps job.subJobs with e | ms
      · simp [hbuild] at hok
      · simp only [hbuild, Except.ok.injEq] at hok
        obtain ⟨xs, hxs, rfl⟩ := (buildMappings_eq_ok_iff h).1 hbuild
        obtain ⟨hsub, hkey⟩ := map_subJob_of_isCompiled h hxs
        refine ⟨h, xs, hxs, ?_⟩
        rw [Chunk.ofSlots, hsub, hkey]
        exact hok.symm
    · rintro ⟨-, xs, hxs, rfl⟩
      obtain ⟨hsub, hkey⟩ := map_subJob_of_isCompiled h hxs
      rw [(buildMappings_eq_ok_iff h).2 ⟨xs, hxs, rfl⟩, Chunk.ofSlots, hsub, hkey]
  · rw [if_pos fun h' => h h'.symm]
    simp [h]

end Store

end CircuitCache
