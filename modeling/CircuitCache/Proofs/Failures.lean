import Mathlib
import CircuitCache.Proofs.Integrity

/-!
# Calls that fail

A call of a store checks all it is given before it changes anything, so one that gives an error
leaves the store as it was: chunks, counters and backing.  Such calls can be left out of a run.
-/

namespace CircuitCache

/-! ## Results with a store -/

/-- An error comes with the store that was there before. -/
def Store.Atomic {ε α : Type} (s : Store) (r : Except ε α × Store) : Prop :=
  ∀ e, r.1 = .error e → r.2 = s

namespace Store

section Atomic

variable {ε α : Type}

theorem atomic_error (s : Store) (e : ε) : s.Atomic ((.error e : Except ε α), s) := fun _ _ => rfl

theorem atomic_ok (s t : Store) (x : α) : s.Atomic ((.ok x : Except ε α), t) := by
  intro e h
  cases h

end Atomic

variable (s : Store)

theorem atomic_loadBytes (bytes : Bytes) : s.Atomic (s.loadBytes bytes) := by
  rcases s.loadBytes_cases bytes with ⟨e, -, heq⟩ | ⟨snapshot, -, heq⟩
  · rw [heq]
    apply atomic_error
  · rw [heq]
    apply atomic_ok

theorem atomic_insert (now : Instant) (index : Nat) (job : Job) (ps : List Program) :
    s.Atomic (s.insert now index job ps) := by
  rcases s.insert_cases now index job ps with ⟨e, heq⟩ | ⟨c, -, -, heq⟩
  · rw [heq]
    apply atomic_error
  · rw [heq]
    apply atomic_ok

theorem atomic_ensureCapacity (index count : Nat) : s.Atomic (s.ensureCapacity index count) := by
  rcases s.ensureCapacity_cases index count with ⟨e, heq⟩ | heq | ⟨_, _, c, -, -, -, heq⟩
  · rw [heq]
    apply atomic_error
  · rw [heq]
    apply atomic_ok
  · rw [heq]
    apply atomic_ok

theorem atomic_patchCopy (index : Nat) (ps : List Program) : s.Atomic (s.patchCopy index ps) := by
  rcases s.patchCopy_cases index ps with ⟨e, heq⟩ | ⟨c, subJobs, -, -, heq⟩
  · rw [heq]
    apply atomic_error
  · rw [heq]
    apply atomic_ok

theorem atomic_patchInPlace (index : Nat) (ps : List Program) :
    s.Atomic (s.patchInPlace index ps) := by
  rcases s.patchInPlace_cases index ps with ⟨e, heq⟩ | ⟨c, d, -, -, heq⟩
  · rw [heq]
    apply atomic_error
  · rw [heq]
    apply atomic_ok

theorem atomic_patch (index : Nat) (ps : List Program) : s.Atomic (s.patch index ps) := by
  rcases s.patch_cases index ps with heq | heq
  · rw [heq]
    apply atomic_patchCopy
  · rw [heq]
    apply atomic_patchInPlace

end Store

/-! ## Calls and runs -/

/-- The call gave an error. -/
def Outcome.isError : Outcome → Bool
  | changed (.error _) => true
  | patched (.error _) => true
  | stored (.error _) => true
  | _ => false

/-- The call is one of the store's own; overwriting the backing comes from outside. -/
def Action.isInner : Action → Bool
  | overwrite _ => false
  | _ => true

namespace Store

theorem Atomic.eq_self {ε α : Type} {s : Store} {r : Except ε α × Store} (hr : s.Atomic r)
    (wrap : Except ε α → Outcome) (hwrap : ∀ x, (wrap (.ok x)).isError = false)
    (h : (wrap r.1).isError = true) : r.2 = s := by
  rcases hresult : r.1 with e | x
  · exact hr e hresult
  · rw [hresult, hwrap] at h
    cases h

/-- A call that fails changes nothing. -/
theorem act_eq_self {s : Store} {now : Instant} {a : Action} (ha : a.isInner = true)
    (h : (s.act now a).1.isError = true) : (s.act now a).2 = s := by
  cases a with
  | insert index job ps =>
    exact (s.atomic_insert now index job ps).eq_self .changed (fun _ => rfl) h
  | ensureCapacity index count =>
    exact (s.atomic_ensureCapacity index count).eq_self .changed (fun _ => rfl) h
  | patch index ps => exact (s.atomic_patch index ps).eq_self .patched (fun _ => rfl) h
  | patchCopy index ps => exact (s.atomic_patchCopy index ps).eq_self .patched (fun _ => rfl) h
  | patchInPlace index ps =>
    exact (s.atomic_patchInPlace index ps).eq_self .patched (fun _ => rfl) h
  | cycle =>
    rw [act, Prod.map_fst] at h
    rw [act, Prod.map_snd]
    exact (s.atomic_loadBytes (s.toBytes now)).eq_self .stored (fun _ => rfl) h
  | loadBytes bytes => exact (s.atomic_loadBytes bytes).eq_self .stored (fun _ => rfl) h
  | overwrite bytes => cases ha
  | lookup | clear | reload | restart => cases h

theorem run_append (s : Store) (before after : List (Instant × Action)) :
    s.run (before ++ after) = (s.run before).run after := List.foldl_append

/-- After every run a call that fails leaves the chunks with all their parameters, names, mappings
and keys, the counters and the backing as they were.  A run goes on after it as if the call had not
been made. -/
theorem failed_call_changes_nothing (config : Config) (backing : Backing)
    (calls : List (Instant × Action)) {now : Instant} {a : Action} (ha : a.isInner = true)
    (h : (((opened config backing).run calls).act now a).1.isError = true) :
    (((opened config backing).run calls).act now a).2 = (opened config backing).run calls ∧
    ∀ later, (opened config backing).run (calls ++ (now, a) :: later) =
      (opened config backing).run (calls ++ later) := by
  have hself := act_eq_self ha h
  refine ⟨hself, fun later => ?_⟩
  calc (opened config backing).run (calls ++ (now, a) :: later)
      = (((opened config backing).run calls).act now a).2.run later := by rw [run_append]; rfl
    _ = ((opened config backing).run calls).run later := by rw [hself]
    _ = (opened config backing).run (calls ++ later) := (run_append _ _ _).symm

end Store

/-- The second program of a batch does not fit its slot; the first one, which does, is not written
to the chunk that would be lent out. -/
theorem Example.failed_patch_changes_nothing :
    let s := (Store.opened { fastMode := true } .none).run
      [(noon, .insert 0 rotationJob [rotation]), (noon, .ensureCapacity 0 2)]
    (s.act noon (.patch 0 [otherRotation, .ofOperations "idle" []])).1.isError = true ∧
    (s.act noon (.patch 0 [otherRotation, .ofOperations "idle" []])).2 = s := by
  have herror : (((Store.opened { fastMode := true } .none).run
      [(noon, .insert 0 rotationJob [rotation]), (noon, .ensureCapacity 0 2)]).act noon
        (.patch 0 [otherRotation, .ofOperations "idle" []])).1.isError = true := by
    decide +kernel
  exact ⟨herror, (Store.failed_call_changes_nothing { fastMode := true } .none _ rfl herror).1⟩

end CircuitCache
