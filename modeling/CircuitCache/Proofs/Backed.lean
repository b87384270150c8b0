import Mathlib
import CircuitCache.Backing

/-!
# What a backing holds

The bytes that a backing holds are those at the place its path leads to (`Backing.held`).  Loading
gives no others, and saving either replaces them as a whole or leaves them, whatever directories it
made before it failed.
-/

namespace CircuitCache

namespace FileTree

/-! ## Files at places -/

/-- The bytes at a place, none for a directory. -/
def content? (t : FileTree) (place : Place) : Option Bytes :=
  match t.node? place with
  | some (.file content) => some content
  | _ => none

/-- The place that a path leads to when everything on the way is there. -/
def target (t : FileTree) (p : FilePath) : Place :=
  p.parts.foldl step (if p.isAbsolute then [] else t.location)

theorem location_set (t : FileTree) (place : Place) (n : FileNode) :
    (t.set place n).location = t.location := rfl

theorem lookup_filter_ne {place q : Place} (h : q ≠ place) (nodes : List (Place × FileNode)) :
    (nodes.filter (·.1 ≠ place)).lookup q = nodes.lookup q := by
  induction nodes with
  | nil => rfl
  | cons x rest ih =>
    obtain ⟨r, n⟩ := x
    by_cases hr : r = place
    · rw [List.filter_cons_of_neg (by simpa using hr), ih, List.lookup_cons,
        beq_eq_false_iff_ne.2 (hr ▸ h)]
    · rw [List.filter_cons_of_pos (by simpa using hr), List.lookup_cons, List.lookup_cons, ih]

theorem node?_set (t : FileTree) (place q : Place) (n : FileNode) :
    (t.set place n).node? q =
      if q = place ∧ place.isPrefixOf t.location = false then some n else t.node? q := by
  rw [node?, node?, location_set]
  by_cases hq : q = place
  · subst hq
    by_cases hp : q.isPrefixOf t.location = true
    · simp [hp]
    · rw [Bool.not_eq_true] at hp
      simp [hp, set]
  · have hlookup : (t.set place n).nodes.lookup q = t.nodes.lookup q := by
      rw [set, List.lookup_cons, beq_eq_false_iff_ne.2 hq]
      exact lookup_filter_ne hq t.nodes
    have hne : ¬(q = place ∧ place.isPrefixOf t.location = false) := fun h => hq h.1
    rw [hlookup, if_neg hne]

/-- A directory that is made where there was nothing changes no file. -/
theorem content?_set_directory {t : FileTree} {place : Place} (h : t.node? place = none)
    (q : Place) : (t.set place .directory).content? q = t.content? q := by
  rw [content?, content?, node?_set]
  by_cases hq : q = place ∧ place.isPrefixOf t.location = false
  · rw [if_pos hq, hq.1, h]
  · rw [if_neg hq]

/-- A file that is put where no directory was is there. -/
theorem content?_set_file {t : FileTree} {place : Place} (h : t.node? place ≠ some .directory)
    (bytes : Bytes) : (t.set place (.file bytes)).content? place = some bytes := by
  have hprefix : place.isPrefixOf t.location = false := by
    refine Bool.eq_false_iff.2 fun hp => h ?_
    rw [node?, if_pos hp]
  rw [content?, node?_set, if_pos ⟨rfl, hprefix⟩]

/-! ## Walking -/

/-- A walk ends where the path leads, and tells what is there. -/
theorem walk_eq_ok {t : FileTree} {place q : Place} {parts : List String} {n : Option FileNode}
    (h : t.walk place parts = .ok (q, n)) :
    q = parts.foldl step place ∧ (n = t.node? q ∨ n = some .directory) := by
  induction parts generalizing place with
  | nil =>
    rw [walk, Except.ok.injEq, Prod.mk.injEq] at h
    exact ⟨h.1.symm, .inr h.2.symm⟩
  | cons part rest ih =>
    rw [walk] at h
    split at h
    · simp only [reduceCtorEq] at h
    · rw [List.foldl_cons]
      simp only at h
      split at h
      · rw [Except.ok.injEq, Prod.mk.injEq] at h
        exact ⟨h.1.symm, .inl (h.1 ▸ h.2.symm)⟩
      · exact ih h
      · simp only [reduceCtorEq] at h
      · simp only [reduceCtorEq] at h

theorem locate_eq_ok {t : FileTree} {p : FilePath} {q : Place} {n : Option FileNode}
    (h : t.locate p = .ok (q, n)) : q = t.target p ∧ (n = t.node? q ∨ n = some .directory) := by
  rw [locate] at h
  unfold target
  cases hp : p.isAbsolute
  · rw [hp, if_neg Bool.false_ne_true] at h
    split at h
    · simp only [reduceCtorEq] at h
    · exact walk_eq_ok h
  · rw [hp, if_pos rfl] at h
    exact walk_eq_ok h

/-- Reading gives the file at the place that the path leads to. -/
theorem content?_of_read {t : FileTree} {path : String} {bytes : Bytes}
    (h : t.read path = .ok bytes) : t.content? (t.target (.ofText path)) = some bytes := by
  unfold read at h
  split at h
  · simp only [reduceCtorEq] at h
  · simp only [reduceCtorEq] at h
  · simp only [reduceCtorEq] at h
  · next q content hfind =>
    unfold find at hfind
    split at hfind
    · simp only [reduceCtorEq] at hfind
    · obtain ⟨rfl, hnode | hnode⟩ := locate_eq_ok hfind
      · rw [content?, ← hnode, Except.ok.inj h]
      · simp only [Option.some.injEq, reduceCtorEq] at hnode

/-! ## Writing -/

theorem makeDirectory_eq_ok {t u : FileTree} {p : FilePath} (h : t.makeDirectory p = .ok u) :
    u.location = t.location ∧ ∀ q, u.content? q = t.content? q := by
  unfold makeDirectory at h
  split at h
  · simp only [reduceCtorEq] at h
  · rw [← Except.ok.inj h]
    exact ⟨rfl, fun q => rfl⟩
  · simp only [reduceCtorEq] at h
  · next place hlocate =>
    rw [← Except.ok.inj h]
    obtain ⟨-, hnode | hnode⟩ := locate_eq_ok hlocate
    · exact ⟨rfl, content?_set_directory hnode.symm⟩
    · simp only [reduceCtorEq] at hnode

/-- Making directories changes no file, even where it fails. -/
theorem content?_makeDirectories (t : FileTree) (isAbsolute : Bool) (done parts : List String) :
    (t.makeDirectories isAbsolute done parts).1.location = t.location ∧
      ∀ q, (t.makeDirectories isAbsolute done parts).1.content? q = t.content? q := by
  induction parts generalizing t done with
  | nil => exact ⟨rfl, fun q => rfl⟩
  | cons part rest ih =>
    rw [makeDirectories]
    split
    · exact ⟨rfl, fun q => rfl⟩
    · next u hu =>
      obtain ⟨hlocation, hcontent⟩ := makeDirectory_eq_ok hu
      obtain ⟨hl, hc⟩ := ih u (done ++ [part])
      exact ⟨hl.trans hlocation, fun q => (hc q).trans (hcontent q)⟩

/-- Writing replaces the file that the path leads to as a whole, or changes no file. -/
theorem content?_write (t : FileTree) (path : String) (bytes : Bytes) :
    (t.write path bytes).1.location = t.location ∧
      ((t.write path bytes).1.content? (t.target (.ofText path)) = some bytes ∨
        ∀ q, (t.write path bytes).1.content? q = t.content? q) := by
  unfold write
  split
  · exact ⟨rfl, .inr fun q => rfl⟩
  · -- Directories that were made stay even where writing fails after them.
    have hmade := content?_makeDirectories t (FilePath.ofText path).isAbsolute []
      (FilePath.ofText path).parent.parts
    simp only
    split
    · next u e hu =>
      rw [hu] at hmade
      exact ⟨hmade.1, .inr hmade.2⟩
    · next u hu =>
      rw [hu] at hmade
      obtain ⟨hlocation, hcontent⟩ := hmade
      split
      · exact ⟨hlocation, .inr hcontent⟩
      · split
        · exact ⟨hlocation, .inr hcontent⟩
        · exact ⟨hlocation, .inr hcontent⟩
        · next place n hne hlocate =>
          have htarget : u.target (.ofText path) = t.target (.ofText path) := by
            rw [target, target, hlocation]
          obtain ⟨hplace, hnode⟩ := locate_eq_ok hlocate
          have hdirectory : n ≠ some .directory := hne
          rcases hnode with hnode | hnode
          · refine ⟨hlocation, .inl ?_⟩
            rw [← htarget, ← hplace]
            exact content?_set_file (hnode ▸ hdirectory) bytes
          · exact absurd hnode hdirectory

end FileTree

namespace Backing

/-- The bytes at the place that is read from, if there are any. -/
def held : Backing → Option Bytes
  | none => Option.none
  | memory content => content
  | file path tree => tree.content? (tree.target (.ofText path))

theorem held_of_load {b : Backing} {bytes : Bytes} (h : b.load = .ok (some bytes)) :
    b.held = some bytes := by
  cases b with
  | none => simp [load] at h
  | memory content => exact Except.ok.inj h
  | file path tree =>
    rw [load, saved.eq_def] at h
    split at h
    · next read hread =>
      rw [Except.ok.injEq, Option.some_inj] at h
      exact h ▸ FileTree.content?_of_read hread
    · simp only [Except.ok.injEq, reduceCtorEq] at h
    · simp only [reduceCtorEq] at h

/-- Saving replaces the bytes as a whole or leaves them. -/
theorem held_save (b : Backing) (bytes : Bytes) :
    (b.save bytes).2.held = some bytes ∨ (b.save bytes).2.held = b.held := by
  cases b with
  | none => exact .inr rfl
  | memory content => exact .inl rfl
  | file path tree =>
    have hsave : (save bytes (file path tree)).2 = file path (tree.write path bytes).1 := by
      rw [save]
      split <;> next h => rw [h]
    obtain ⟨hlocation, hcontent⟩ := tree.content?_write path bytes
    have htarget : (tree.write path bytes).1.target (.ofText path) =
        tree.target (.ofText path) := by
      rw [FileTree.target, FileTree.target, hlocation]
    rw [hsave, held, held, htarget]
    exact hcontent.imp_right fun h => h _

end Backing

end CircuitCache
