import Mathlib
import CircuitCache.Proofs.Integrity

/-!
# Hits and patches

A look-up compares keys, a patch checks every entry of the mappings as well.  In a store that holds
nothing but what such stores compiled, the two agree as long as keys tell the structures in play
apart: each slot has the key of a program that its mapping fits.
-/

namespace CircuitCache

/-- Among these programs equal keys mean equal structures. -/
def KeysSeparate (P : Program → Prop) : Prop :=
  ∀ p q, P p → P q → Key.ofProgram p = Key.ofProgram q → p.shapes = q.shapes

/-! ## Slots of known programs -/

/-- The slot is that of one of these programs: it has its key, and its mapping fits it. -/
def Skeleton.Serves (P : Program → Prop) (x : Skeleton) : Prop :=
  ∃ p, P p ∧ x.key = Key.ofProgram p ∧ x.mapping.Fits x.shapes p.shapes

/-- A slot that was just compiled serves its program. -/
theorem Slot.IsCompiled.serves {P : Program → Prop} {p : Program} {s : SubJob} {x : Slot}
    (h : x.IsCompiled p s) (hp : P p) : x.skeleton.Serves P := by
  obtain ⟨order, horder, rfl⟩ := h
  exact ⟨p, hp, rfl, Mapping.fits_ofOrder horder⟩

/-- Where keys tell structures apart, the right key is all it takes. -/
theorem Skeleton.Serves.accepts_iff {P : Program → Prop} (hkeys : KeysSeparate P) {x : Skeleton}
    (h : x.Serves P) {p : Program} (hp : P p) : x.Accepts p ↔ x.key = Key.ofProgram p := by
  constructor
  · intro haccepts
    exact haccepts.2
  · intro hkey
    obtain ⟨q, hq, hkeyq, hfits⟩ := h
    have hshapes : q.shapes = p.shapes := hkeys q p hq hp (hkeyq.symm.trans hkey)
    exact ⟨hshapes ▸ hfits, hkey⟩

variable {B : String → Prop} {P : Program → Prop}

/-- A chunk of such slots serves exactly the programs it can be patched with. -/
theorem Chunk.serves_iff_patchInPlace (hkeys : KeysSeparate P) {c : Chunk}
    (h : c.Sound B (Skeleton.Serves P)) {ps : List Program} (hps : ∀ p ∈ ps, P p) (index : Nat) :
    c.serves ps = true ↔ ∃ d, c.patchInPlace index ps = .ok d := by
  obtain ⟨backend, xs, rfl, -, hxs⟩ := h.exists_slots
  have haccepts : (∀ xp ∈ xs.zip ps, xp.1.skeleton.Accepts xp.2) ↔
      ∀ xp ∈ xs.zip ps, xp.1.key = Key.ofProgram xp.2 := by
    refine forall₂_congr fun xp hxp => ?_
    have hmem := List.of_mem_zip hxp
    exact (hxs xp.1 hmem.1).accepts_iff hkeys (hps xp.2 hmem.2)
  rw [serves_ofSlots_iff, ← haccepts]
  constructor
  · rintro ⟨hlength, hall⟩
    exact ⟨_, patchInPlace_ofSlots_eq_ok_iff.2 ⟨hlength, hall, rfl⟩⟩
  · rintro ⟨d, hd⟩
    obtain ⟨hlength, hall, -⟩ := patchInPlace_ofSlots_eq_ok_iff.1 hd
    exact ⟨hlength, hall⟩

namespace Store

/-! ## Calls of a store on its own -/

theorem lookup_eq_true_iff {s : Store} {index : Nat} {ps : List Program} :
    (s.lookup index ps).1 = true ↔ ∃ c, s.chunk? index = some c ∧ c.serves ps = true := by
  unfold lookup
  split
  · next h =>
    obtain ⟨c, hc, hserves⟩ := (Option.any_eq_true ..).1 h
    exact iff_of_true rfl ⟨c, hc, hserves⟩
  · next h =>
    refine iff_of_false Bool.false_ne_true ?_
    rintro ⟨c, hc, hserves⟩
    exact h ((Option.any_eq_true ..).2 ⟨c, hc, hserves⟩)

theorem exists_patchInPlace_iff {s : Store} {index : Nat} {ps : List Program} :
    (∃ job, (s.patchInPlace index ps).1 = .ok job) ↔
      ∃ c, s.chunk? index = some c ∧ ∃ d, c.patchInPlace index ps = .ok d := by
  unfold patchInPlace
  rcases s.chunk? index with _ | c
  · simp
  · rcases hc : c.patchInPlace index ps with e | d <;> simp [hc]

/-- Both ways of patching accept the same programs. -/
theorem exists_patchCopy_iff {s : Store} {index : Nat} {ps : List Program} :
    (∃ job, (s.patchCopy index ps).1 = .ok job) ↔
      ∃ job, (s.patchInPlace index ps).1 = .ok job := by
  rw [← s.map_owned_patchInPlace]
  rcases (s.patchInPlace index ps).1 with e | job <;> simp [Except.map]

end Store

/-- The call inserts nothing but jobs of these programs, and brings in no bytes from outside. -/
def Action.IsOwn (P : Program → Prop) : Action → Prop
  | insert _ _ ps => ∀ p ∈ ps, P p
  | loadBytes _ => False
  | overwrite _ => False
  | _ => True

/-- The bytes are the stored form of a store that was opened over nothing, or over bytes of this
kind, and has been used on its own since. -/
inductive Written (P : Program → Prop) : Bytes → Prop where
  | first (config : Config) {backing : Backing} (hbacking : backing.held = none)
      {calls : List (Instant × Action)} (hcalls : ∀ call ∈ calls, call.2.IsOwn P) (now : Instant) :
      Written P (((Store.opened config backing).run calls).toBytes now)
  | later (config : Config) {backing : Backing} {bytes : Bytes}
      (hbacking : backing.held = some bytes) (hbytes : Written P bytes)
      {calls : List (Instant × Action)} (hcalls : ∀ call ∈ calls, call.2.IsOwn P) (now : Instant) :
      Written P (((Store.opened config backing).run calls).toBytes now)

/-- A store on its own brings in slots of its programs only. -/
theorem Action.IsOwn.trusted {a : Action} (h : a.IsOwn P) :
    a.Trusted (fun _ => True) (Skeleton.Serves P) := by
  cases a with
  | insert chunk job ps =>
    exact fun c hc => sound_compiled trivial (fun p hp _ _ x hx => hx.serves (h p hp)) hc
  | loadBytes bytes => exact absurd h id
  | overwrite bytes => exact absurd h id
  | lookup | ensureCapacity | patch | patchCopy | patchInPlace | clear | reload | restart | cycle =>
    trivial

theorem Store.holds_of_isOwn (config : Config) {backing : Backing}
    (hheld : ∀ bytes ∈ backing.held, SoundBytes (fun _ => True) (Skeleton.Serves P) bytes)
    {calls : List (Instant × Action)} (hcalls : ∀ call ∈ calls, call.2.IsOwn P) :
    ((opened config backing).run calls).Holds (fun _ => True) (Skeleton.Serves P) :=
  (holds_opened hheld).run fun call hcall => (hcalls call hcall).trusted

theorem Written.soundBytes {bytes : Bytes} (h : Written P bytes) :
    SoundBytes (fun _ => True) (Skeleton.Serves P) bytes := by
  induction h with
  | first config hbacking hcalls now =>
    refine (Store.holds_of_isOwn config (fun bytes hheld => ?_) hcalls).toBytes now
    rw [hbacking] at hheld
    cases hheld
  | later config hbacking hbytes hcalls now ih =>
    refine (Store.holds_of_isOwn config (fun bytes hheld => ?_) hcalls).toBytes now
    rw [hbacking, Option.mem_some_iff] at hheld
    exact hheld ▸ ih

namespace Store

/-- In a store that was opened over nothing, or over what such a store wrote, and has been used on
its own, a look-up hits exactly when the programs can be patched in, in either way. -/
theorem lookup_hit_iff_patch_ok (hkeys : KeysSeparate P) (config : Config) {backing : Backing}
    (hbacking : ∀ bytes ∈ backing.held, Written P bytes) {calls : List (Instant × Action)}
    (hcalls : ∀ call ∈ calls, call.2.IsOwn P) (index : Nat) {ps : List Program}
    (hps : ∀ p ∈ ps, P p) :
    let s := (opened config backing).run calls
    ((s.lookup index ps).1 = true ↔ ∃ job, (s.patchCopy index ps).1 = .ok job) ∧
    ((s.lookup index ps).1 = true ↔ ∃ job, (s.patchInPlace index ps).1 = .ok job) := by
  intro s
  have hholds : s.Holds (fun _ => True) (Skeleton.Serves P) :=
    holds_of_isOwn config (fun bytes hheld => (hbacking bytes hheld).soundBytes) hcalls
  have hhit : (s.lookup index ps).1 = true ↔ ∃ job, (s.patchInPlace index ps).1 = .ok job := by
    rw [lookup_eq_true_iff, exists_patchInPlace_iff]
    refine exists_congr fun c => and_congr_right fun hc => ?_
    exact Chunk.serves_iff_patchInPlace hkeys (hholds.chunk? hc) hps index
  exact ⟨hhit.trans exists_patchCopy_iff.symm, hhit⟩

end Store

/-- A store that was opened over the bytes of another with the rotation, and asked for it with
another angle. -/
theorem Example.lookup_rotation_iff_patch_ok :
    let bytes := ((Store.opened {} .none).run
      [(noon, .insert 0 rotationJob [rotation])]).toBytes noon
    let s := (Store.opened { fastMode := true } (.memory (some bytes))).run
      [(noon, .patch 0 [otherRotation]), (noon, .ensureCapacity 1 2), (noon, .cycle)]
    ((s.lookup 1 [otherRotation, rotation]).1 = true ↔
      ∃ job, (s.patchCopy 1 [otherRotation, rotation]).1 = .ok job) ∧
    ((s.lookup 1 [otherRotation, rotation]).1 = true ↔
      ∃ job, (s.patchInPlace 1 [otherRotation, rotation]).1 = .ok job) := by
  have hkeys : KeysSeparate fun p => p.shapes = rotation.shapes := by
    intro p q hp hq _
    exact hp.trans hq.symm
  have hwritten : Written (fun p => p.shapes = rotation.shapes)
      (((Store.opened {} .none).run [(noon, .insert 0 rotationJob [rotation])]).toBytes noon) := by
    refine .first {} rfl (fun call hcall => ?_) noon
    rw [List.mem_singleton.1 hcall]
    exact fun p hp => List.mem_singleton.1 hp ▸ rfl
  refine Store.lookup_hit_iff_patch_ok hkeys { fastMode := true } ?_ ?_ 1 ?_
  · intro bytes hbytes
    exact Option.some.inj hbytes ▸ hwritten
  · intro call hcall
    simp only [List.mem_cons, List.not_mem_nil, or_false] at hcall
    rcases hcall with rfl | rfl | rfl <;> trivial
  · intro p hp
    simp only [List.mem_cons, List.not_mem_nil, or_false] at hp
    rcases hp with rfl | rfl <;> rfl

end CircuitCache
