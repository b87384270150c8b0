import CircuitCache.Store

/-!
# Runs of a store

An action is a call to a store with its arguments; a run is a list of actions.  Laws about whole
runs are stated on `Store.run`.
-/

namespace CircuitCache

/-- A call to a store. -/
inductive Action where
  | lookup (chunk : Nat) (programs : List Program)
  | insert (chunk : Nat) (job : Job) (programs : List Program)
  | ensureCapacity (chunk count : Nat)
  | patch (chunk : Nat) (programs : List Program)
  | patchCopy (chunk : Nat) (programs : List Program)
  | patchInPlace (chunk : Nat) (programs : List Program)
  | clear
  | reload
  | restart
  /-- Loads what `toBytes` gives. -/
  | cycle
  | loadBytes (bytes : Bytes)
  /-- Replaces the bytes of the backing from outside. -/
  | overwrite (bytes : Bytes)
  deriving Repr

/-- The result of a call. -/
inductive Outcome where
  | done
  | found (hit : Bool)
  | changed (result : Except CacheError Unit)
  | patched (result : Except CacheError Patched)
  | stored (result : Except StorageError Unit)
  deriving Repr

namespace Store

/-- A call at a given time: its result, and the store after it. -/
def act (s : Store) (now : Instant) : Action → Outcome × Store
  | .lookup chunk programs => (s.lookup chunk programs).map .found id
  | .insert chunk job programs => (s.insert now chunk job programs).map .changed id
  | .ensureCapacity chunk count => (s.ensureCapacity chunk count).map .changed id
  | .patch chunk programs => (s.patch chunk programs).map .patched id
  | .patchCopy chunk programs => (s.patchCopy chunk programs).map .patched id
  | .patchInPlace chunk programs => (s.patchInPlace chunk programs).map .patched id
  | .clear => (.done, s.clear)
  | .reload => (.done, s.reload)
  | .restart => (.done, s.restart)
  | .cycle => (s.loadBytes (s.toBytes now)).map .stored id
  | .loadBytes bytes => (s.loadBytes bytes).map .stored id
  | .overwrite bytes => (s.overwrite bytes).map .stored id

/-- The store after calls at given times. -/
def run (s : Store) (calls : List (Instant × Action)) : Store :=
  calls.foldl (fun s (now, a) => (s.act now a).2) s

/-- The results of calls at given times, in order. -/
def outcomes (s : Store) : List (Instant × Action) → List Outcome
  | [] => []
  | (now, a) :: rest => (s.act now a).1 :: outcomes (s.act now a).2 rest

end Store

end CircuitCache
