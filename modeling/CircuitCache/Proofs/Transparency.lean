import Mathlib
import CircuitCache.Proofs.Hits

/-!
# A store in front of a compiler

A compiler turns programs into sub-jobs one by one, in an order that depends on the structure alone
and keeps operations of equal signature in place (`Compiler`).  A store in front of it is used in
rounds: make room, look up, compile and insert on a miss, patch.  Whatever rounds came before, a
round gives the very job that compiling gives.
-/

namespace CircuitCache

/-- A compiler by its order of the operations of each structure. -/
structure Compiler where
  backend : String
  order : List Shape → List Nat
  perm : ∀ shapes, (order shapes).Perm (List.range shapes.length)
  ordered : ∀ shapes : List Shape, (order shapes).Pairwise fun a b =>
    shapes[a]?.map Shape.signature = shapes[b]?.map Shape.signature → a < b
  listing : Program → Option String

namespace Compiler

/-- The compiled form of one program, in the order for its structure. -/
def compileOne (C : Compiler) (p : Program) : SubJob :=
  ⟨p.name, p.compiledIn (C.order p.shapes), C.listing p⟩

/-- The compiled form of a batch. -/
def compile (C : Compiler) (ps : List Program) : Job := ⟨C.backend, ps.map C.compileOne⟩

/-- What a store hands out for a batch: the compiled job, without listings. -/
def patched (C : Compiler) (index : Nat) (isBorrowed : Bool) (ps : List Program) : Patched :=
  ⟨index, (C.compile ps).backend, (C.compile ps).subJobs.map SubJob.unlisted, isBorrowed⟩

end Compiler

/-! ## Orders -/

/-- The shapes of a compiled program are those of the program in the order of compiling. -/
theorem Program.map_shape_compiledIn {p : Program} {order : List Nat}
    (h : ∀ b ∈ order, b < p.shapes.length) :
    order.map (p.shapes[·]?) = ((p.compiledIn order).map Instruction.shape).map some := by
  rw [compiledIn]
  induction order with
  | nil => rfl
  | cons b rest ih =>
    rw [List.forall_mem_cons] at h
    have hlt : b < p.unrolled.length := by
      have hb := h.1
      rwa [shapes, List.length_map] at hb
    have hop : p.unrolled[b]?.map Operation.compiled = some p.unrolled[b].compiled := by
      rw [List.getElem?_eq_getElem hlt, Option.map_some]
    rw [List.filterMap_cons, hop]
    simp only [List.map_cons, ih h.2, Operation.shape_compiled]
    rw [shapes, List.getElem?_map, List.getElem?_eq_getElem hlt, Option.map_some]

namespace Compiler

/-- The order of compiling is a pairing of a program with its compiled form. -/
theorem isPairing (C : Compiler) (p : Program) :
    IsPairing p.shapes (C.compileOne p).shapes (C.order p.shapes) where
  perm := C.perm p.shapes
  shape := Program.map_shape_compiledIn fun _ hb =>
    List.mem_range.1 ((C.perm p.shapes).mem_iff.1 hb)
  ordered := C.ordered p.shapes

/-- The slot of a program that this compiler compiled. -/
def slot (C : Compiler) (p : Program) : Slot :=
  ⟨(C.compileOne p).unlisted, Mapping.ofOrder p.shapes (C.order p.shapes), Key.ofProgram p⟩

/-- A compiled batch is cached as it is, slot by slot. -/
theorem compiled_compile (C : Compiler) (ps : List Program) :
    Store.compiled (C.compile ps) ps = .ok (Chunk.ofSlots C.backend (ps.map C.slot)) := by
  rw [Store.compiled_eq_ok_iff]
  refine ⟨by rw [compile, List.length_map], ps.map C.slot, ?_, rfl⟩
  rw [compile]
  induction ps with
  | nil => exact .nil
  | cons p ps ih => exact .cons ⟨C.order p.shapes, C.isPairing p, rfl⟩ ih

/-- The slot holds a program of these that was compiled in the order of the compiler. -/
def Made (C : Compiler) (P : Program → Prop) (x : Skeleton) : Prop :=
  ∃ p, P p ∧ x.key = Key.ofProgram p ∧ IsPairing p.shapes x.shapes (C.order p.shapes) ∧
    x.mapping = Mapping.ofOrder p.shapes (C.order p.shapes) ∧ x.listing = none

variable {C : Compiler} {P : Program → Prop}

theorem made_slot {p : Program} (hp : P p) : C.Made P (C.slot p).skeleton :=
  ⟨p, hp, rfl, C.isPairing p, rfl, rfl⟩

/-- A slot of this compiler accepts every program with its key, and then holds that program
compiled. -/
theorem Made.write (hkeys : KeysSeparate P) {x : Slot} (h : C.Made P x.skeleton) {p : Program}
    (hp : P p) (hkey : x.key = Key.ofProgram p) :
    x.skeleton.Accepts p ∧ (x.write p).subJob = (C.compileOne p).unlisted := by
  obtain ⟨q, hq, hkeyq, hpairing, hmapping, hlisting⟩ := h
  -- The slot was made for `q`, but its mapping depends on the structure alone, and so fits `p`.
  have hshapes : q.shapes = p.shapes := hkeys q p hq hp (hkeyq.symm.trans hkey)
  rw [hshapes] at hpairing hmapping
  have hmapping : x.mapping = Mapping.ofOrder p.shapes (C.order p.shapes) := hmapping
  have hlisting : x.subJob.listing = none := hlisting
  refine ⟨⟨?_, hkey⟩, ?_⟩
  · show x.mapping.Fits x.subJob.shapes p.shapes
    rw [hmapping]
    exact Mapping.fits_ofOrder hpairing
  · rw [Slot.write, hmapping, Mapping.write_ofOrder hpairing, hlisting]
    rfl

/-- A chunk of this compiler that serves a batch is patched to the batch compiled. -/
theorem patchInPlace_of_serves (hkeys : KeysSeparate P) {c : Chunk}
    (h : c.Sound (· = C.backend) (C.Made P)) {ps : List Program} (hps : ∀ p ∈ ps, P p)
    (hserves : c.serves ps = true) (index : Nat) :
    ∃ d, c.patchInPlace index ps = .ok d ∧ d.job.backend = C.backend ∧
      d.job.subJobs.take ps.length = ps.map fun p => (C.compileOne p).unlisted := by
  obtain ⟨backend, xs, rfl, rfl, hxs⟩ := h.exists_slots
  obtain ⟨hlength, hkeysMatch⟩ := Chunk.serves_ofSlots_iff.1 hserves
  have hwrite : ∀ xp ∈ xs.zip ps, xp.1.skeleton.Accepts xp.2 ∧
      (xp.1.write xp.2).subJob = (C.compileOne xp.2).unlisted := by
    intro xp hxp
    have hmem := List.of_mem_zip hxp
    exact (hxs xp.1 hmem.1).write hkeys (hps xp.2 hmem.2) (hkeysMatch xp hxp)
  refine ⟨Chunk.ofSlots C.backend (Slot.writeAll xs ps), ?_, rfl, ?_⟩
  · exact Chunk.patchInPlace_ofSlots_eq_ok_iff.2 ⟨hlength, fun xp hxp => (hwrite xp hxp).1, rfl⟩
  · have hzip : List.zipWith Slot.write xs ps = (xs.zip ps).map fun xp => xp.1.write xp.2 := by
      rw [List.zip, List.map_zipWith]
    rw [Chunk.ofSlots, ← List.map_take, Slot.take_writeAll hlength, hzip, List.map_map]
    calc (xs.zip ps).map (Slot.subJob ∘ fun xp => xp.1.write xp.2)
        = (xs.zip ps).map fun xp => (C.compileOne xp.2).unlisted :=
          List.map_congr_left fun xp hxp => (hwrite xp hxp).2
      _ = ((xs.zip ps).map Prod.snd).map fun p => (C.compileOne p).unlisted := by
          rw [List.map_map]
          rfl
      _ = ps.map fun p => (C.compileOne p).unlisted := by rw [List.map_snd_zip hlength]

end Compiler

/-! ## Rounds -/

/-- A step of using a store in front of a compiler. -/
inductive Round where
  | clear
  | reload
  | restart
  /-- Asks for a batch. -/
  | serve (chunk : Nat) (programs : List Program)

namespace Store

/-- Asks for a batch: makes room if that can be done, looks up, compiles and inserts on a miss, and
patches. -/
def serve (C : Compiler) (s : Store) (now : Instant) (index : Nat) (ps : List Program) :
    Except CacheError Patched × Store :=
  let s := (s.ensureCapacity index ps.length).2
  let (hit, s) := s.lookup index ps
  let s := if hit then s else (s.insert now index (C.compile ps) ps).2
  s.patch index ps

/-- A round at a given time: its result, if it asks for one, and the store after it. -/
def round (C : Compiler) (s : Store) (now : Instant) :
    Round → Option (Except CacheError Patched) × Store
  | .clear => (none, s.clear)
  | .reload => (none, s.reload)
  | .restart => (none, s.restart)
  | .serve index ps => (s.serve C now index ps).map some id

/-- The results of rounds at given times, in order. -/
def rounds (C : Compiler) (s : Store) :
    List (Instant × Round) → List (Option (Except CacheError Patched))
  | [] => []
  | (now, r) :: rest => (s.round C now r).1 :: rounds C (s.round C now r).2 rest

/-! ### What a round gives -/

variable {C : Compiler} {P : Program → Prop}

/-- A patch of programs that hit gives them compiled, in either mode. -/
theorem patch_of_serves (hkeys : KeysSeparate P) {s : Store}
    (h : s.Holds (· = C.backend) (C.Made P)) {index : Nat} {c : Chunk}
    (hc : s.chunk? index = some c) {ps : List Program} (hps : ∀ p ∈ ps, P p)
    (hserves : c.serves ps = true) :
    (s.patch index ps).1 = .ok (C.patched index s.config.fastMode ps) := by
  have hsound := h.chunk? hc
  obtain ⟨d, hd, hbackend, hsubJobs⟩ :=
    Compiler.patchInPlace_of_serves hkeys hsound hps hserves index
  have hpatched (isBorrowed : Bool) : C.patched index isBorrowed ps =
      ⟨index, C.backend, d.job.subJobs.take ps.length, isBorrowed⟩ := by
    rw [hsubJobs, Compiler.patched, Compiler.compile, List.map_map]
    rfl
  rw [patch, Config.mode, hpatched]
  cases s.config.fastMode
  · rw [if_neg Bool.false_ne_true, patchCopy, hc]
    simp only [Chunk.patchCopy_eq_map, hd, Except.map, hsound.backend]
  · rw [if_pos rfl, patchInPlace, hc]
    simp only [hd, hbackend]

/-- The chunk of a compiled batch, made of its slots, serves the batch and is sound. -/
theorem serves_ofSlots_slot (C : Compiler) (ps : List Program) :
    (Chunk.ofSlots C.backend (ps.map C.slot)).serves ps = true := by
  refine Chunk.serves_ofSlots_iff.2 ⟨by rw [List.length_map], fun xp hxp => ?_⟩
  induction ps with
  | nil => cases hxp
  | cons p ps ih =>
    rcases List.mem_cons.1 hxp with rfl | hxp
    · rfl
    · exact ih hxp

theorem sound_of_compiled_compile {ps : List Program} (hps : ∀ p ∈ ps, P p) {c : Chunk}
    (h : compiled (C.compile ps) ps = .ok c) : c.Sound (· = C.backend) (C.Made P) := by
  rw [C.compiled_compile] at h
  rw [← Except.ok.inj h]
  refine Chunk.sound_ofSlots_iff.2 ⟨rfl, fun x hx => ?_⟩
  obtain ⟨p, hp, rfl⟩ := List.mem_map.1 hx
  exact Compiler.made_slot (hps p hp)

/-- A batch that is compiled and inserted is there. -/
theorem chunk?_insert_compile {s : Store} {ps : List Program}
    (hlimit : ps.length ≤ s.config.submissionSizeLimit) (now : Instant) (index : Nat) :
    (s.insert now index (C.compile ps) ps).2.chunk? index =
      some (Chunk.ofSlots C.backend (ps.map C.slot)) := by
  rw [insert, checkLimit_of_le hlimit]
  simp only [C.compiled_compile]
  exact chunk?_of_place rfl

/-- A round that asks for a batch gives the batch compiled, and leaves the store as it should be. -/
theorem serve_eq (hkeys : KeysSeparate P) {s : Store} (h : s.Holds (· = C.backend) (C.Made P))
    (now : Instant) (index : Nat) {ps : List Program} (hps : ∀ p ∈ ps, P p)
    (hlimit : ps.length ≤ s.config.submissionSizeLimit) :
    (s.serve C now index ps).1 = .ok (C.patched index s.config.fastMode ps) ∧
      (s.serve C now index ps).2.Holds (· = C.backend) (C.Made P) ∧
      (s.serve C now index ps).2.config = s.config := by
  rw [serve]
  -- The call that makes room may fail, and leaves a store of the same kind in either case.
  have hroom := h.ensureCapacity index ps.length
  have hconfigRoom := (s.sameSetting_ensureCapacity index ps.length).config
  generalize (s.ensureCapacity index ps.length).2 = room at hroom hconfigRoom ⊢
  have hlooked := hroom.lookup index ps
  have hconfigLooked := (room.sameSetting_lookup index ps).config.trans hconfigRoom
  by_cases hhit : (room.lookup index ps).1 = true
  · obtain ⟨c, hc, hserves⟩ := lookup_eq_true_iff.1 hhit
    have hc : (room.lookup index ps).2.chunk? index = some c := by
      unfold lookup
      split <;> exact hc
    simp only [hhit, if_true]
    refine ⟨?_, hlooked.patch index ps, (sameSetting_patch _ index ps).config.trans hconfigLooked⟩
    rw [patch_of_serves hkeys hlooked hc hps hserves, hconfigLooked]
  · simp only [hhit, if_false, Bool.false_eq_true]
    rw [← hconfigLooked] at hlimit ⊢
    generalize (room.lookup index ps).2 = looked at hlooked hlimit ⊢
    have hinserted := hlooked.insert (fun c hc => sound_of_compiled_compile hps hc) now index
    have hconfig := looked.config_insert now index (C.compile ps) ps
    have hc := chunk?_insert_compile (C := C) hlimit now index
    refine ⟨?_, hinserted.patch index ps, (sameSetting_patch _ index ps).config.trans hconfig⟩
    rw [patch_of_serves hkeys hinserted hc hps (serves_ofSlots_slot C ps), hconfig]

end Store

namespace Round

/-- The batch of a round is of these programs and no larger than allowed. -/
def IsWithin (P : Program → Prop) (limit : Nat) : Round → Prop
  | serve _ ps => (∀ p ∈ ps, P p) ∧ ps.length ≤ limit
  | _ => True

/-- What a round gives when nothing is cached: the batch compiled, without listings. -/
def expected (C : Compiler) (config : Config) : Round → Option (Except CacheError Patched)
  | serve index ps => some (.ok (C.patched index config.fastMode ps))
  | _ => none

end Round

namespace Store

variable {C : Compiler} {P : Program → Prop}

theorem round_eq (hkeys : KeysSeparate P) {s : Store} (h : s.Holds (· = C.backend) (C.Made P))
    (now : Instant) {r : Round} (hr : r.IsWithin P s.config.submissionSizeLimit) :
    (s.round C now r).1 = r.expected C s.config ∧
      (s.round C now r).2.Holds (· = C.backend) (C.Made P) ∧
      (s.round C now r).2.config = s.config := by
  cases r with
  | clear => exact ⟨rfl, h.clear, rfl⟩
  | reload => exact ⟨rfl, h.reload, rfl⟩
  | restart => exact ⟨rfl, h.restart, rfl⟩
  | serve index ps =>
    obtain ⟨hresult, hholds, hconfig⟩ := serve_eq hkeys h now index hr.1 hr.2
    exact ⟨congrArg some hresult, hholds, hconfig⟩

/-- A store that is opened over nothing gives in every round what the compiler gives, whatever rounds
came before: the same backend, names, instructions and parameters, in either mode and with or without
reuse of templates. -/
theorem rounds_eq_expected (hkeys : KeysSeparate P) (config : Config) {backing : Backing}
    (hbacking : backing.held = none) {steps : List (Instant × Round)}
    (hsteps : ∀ step ∈ steps, step.2.IsWithin P config.submissionSizeLimit) :
    (opened config backing).rounds C steps = steps.map fun step => step.2.expected C config := by
  have hopened : (opened config backing).Holds (· = C.backend) (C.Made P) := by
    refine holds_opened fun bytes hheld => ?_
    rw [hbacking] at hheld
    cases hheld
  have hconfig : (opened config backing).config = config := rfl
  -- The store changes from round to round, its configuration does not.
  generalize opened config backing = s at hopened hconfig ⊢
  induction steps generalizing s with
  | nil => rfl
  | cons step rest ih =>
    obtain ⟨now, r⟩ := step
    rw [List.forall_mem_cons] at hsteps
    subst hconfig
    obtain ⟨hresult, hholds, hnext⟩ := round_eq hkeys hopened now hsteps.1
    rw [rounds, List.map_cons, hresult, ih (fun x hx => hsteps.2 x hx) _ hholds hnext]

end Store

/-! ## An example -/

namespace Example

/-- A compiler that keeps the order of all operations. -/
def device : Compiler where
  backend := "device"
  order shapes := List.range shapes.length
  perm _ := .refl _
  ordered shapes := by
    have hsorted : (List.range shapes.length).Pairwise (· < ·) := List.pairwise_lt_range
    refine hsorted.imp ?_
    intro a b hlt _
    exact hlt
  listing _ := some "rz q[0];"

/-- A batch is compiled; after a restart another chunk is filled from it and patched. -/
theorem rounds_device_eq :
    (Store.opened { fastMode := true } (.file "cache.json" (.empty "/home"))).rounds device
      [(noon, .serve 0 [rotation]), (noon, .restart), (noon, .serve 1 [otherRotation, rotation])] =
    [some (.ok ⟨0, "device", [⟨"turn", [⟨.rz, [0], [.ofInt 1]⟩], none⟩], true⟩),
      none,
      some (.ok ⟨1, "device", [⟨"other", [⟨.rz, [0], [.ofInt 2]⟩], none⟩,
        ⟨"turn", [⟨.rz, [0], [.ofInt 1]⟩], none⟩], true⟩)] := by
  have hkeys : KeysSeparate fun p => p.shapes = rotation.shapes := by
    intro p q hp hq _
    exact hp.trans hq.symm
  have hwithin : ∀ step ∈ [(noon, .serve 0 [rotation]), (noon, .restart),
      (noon, .serve 1 [otherRotation, rotation])],
      Round.IsWithin (fun p => p.shapes = rotation.shapes) 300 step.2 := by
    intro step hstep
    simp only [List.mem_cons, List.not_mem_nil, or_false] at hstep
    rcases hstep with rfl | rfl | rfl
    · exact ⟨by simp, by decide⟩
    · trivial
    · exact ⟨by simp [otherRotation, rotation, Program.shapes, Program.unrolled_ofOperations,
        Operation.shape, Operation.signature], by decide⟩
  have hempty : (Backing.file "cache.json" (.empty "/home")).held = none := by decide
  exact Store.rounds_eq_expected hkeys { fastMode := true } hempty hwithin

end Example

end CircuitCache
