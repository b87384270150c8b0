import Mathlib
import CircuitCache.Backing

/-!
# What files contain

A tree finds its way by names and directories alone; the content of a file is only handed over.  So
every operation commutes with changing the contents of all files, and gives the same errors.
-/

namespace CircuitCache

variable (f : Bytes → Bytes)

/-- A file with its content changed. -/
def FileNode.map : FileNode → FileNode
  | file content => file (f content)
  | directory => directory

namespace FileTree

/-- The tree with the contents of all files changed. -/
def map (t : FileTree) : FileTree := { t with nodes := t.nodes.map fun x => (x.1, x.2.map f) }

variable (t : FileTree)

theorem nodes_map : (t.map f).nodes = t.nodes.map fun x => (x.1, x.2.map f) := rfl

theorem location_map : (t.map f).location = t.location := rfl

theorem node?_map (place : Place) :
    (t.map f).node? place = (t.node? place).map (FileNode.map f) := by
  have hlookup : (t.map f).nodes.lookup place = (t.nodes.lookup place).map (FileNode.map f) := by
    rw [nodes_map]
    induction t.nodes with
    | nil => rfl
    | cons x rest ih =>
      rw [List.map_cons, List.lookup_cons, List.lookup_cons, ih]
      cases place == x.1 <;> rfl
  rw [node?, node?, hlookup, location_map]
  split <;> rfl

theorem map_set (place : Place) (n : FileNode) :
    (t.set place n).map f = (t.map f).set place (n.map f) := by
  rw [set, set, nodes_map, List.filter_map]
  rfl

/-! ## Looking up -/

theorem walk_map (place : Place) (parts : List String) :
    (t.map f).walk place parts =
      (t.walk place parts).map (Prod.map id (Option.map (FileNode.map f))) := by
  induction parts generalizing place with
  | nil => rfl
  | cons part rest ih =>
    rw [walk, walk]
    split
    · rfl
    · simp only [node?_map]
      cases rest with
      | nil => rfl
      | cons next rest =>
        rcases t.node? (step place part) with _ | content | _
        · rfl
        · rfl
        · exact ih (step place part)

theorem locate_map (p : FilePath) :
    (t.map f).locate p = (t.locate p).map (Prod.map id (Option.map (FileNode.map f))) := by
  unfold locate
  split
  · apply walk_map
  · split
    · rfl
    · apply walk_map

theorem read_map (path : String) : (t.map f).read path = (t.read path).map f := by
  unfold read find
  rcases refusal? path with _ | e
  · simp only [locate_map]
    rcases t.locate (.ofText path) with e | ⟨place, _ | content | _⟩ <;> rfl
  · rfl

/-! ## Writing -/

theorem makeDirectory_map (p : FilePath) :
    (t.map f).makeDirectory p = (t.makeDirectory p).map (map f) := by
  unfold makeDirectory
  rw [locate_map]
  rcases t.locate p with e | ⟨place, _ | content | _⟩
  · rfl
  · exact congrArg Except.ok (map_set f t place .directory).symm
  · rfl
  · rfl

theorem makeDirectories_map (isAbsolute : Bool) (done parts : List String) :
    (t.map f).makeDirectories isAbsolute done parts =
      Prod.map (map f) id (t.makeDirectories isAbsolute done parts) := by
  induction parts generalizing t done with
  | nil => rfl
  | cons part rest ih =>
    rw [makeDirectories, makeDirectories, makeDirectory_map]
    rcases t.makeDirectory ⟨isAbsolute, done ++ [part]⟩ with e | u
    · rfl
    · exact ih u (done ++ [part])

theorem write_map (path : String) (bytes : Bytes) :
    (t.map f).write path (f bytes) = Prod.map (map f) id (t.write path bytes) := by
  unfold write
  rcases refusal? path with _ | e
  · simp only [makeDirectories_map]
    rcases t.makeDirectories (FilePath.ofText path).isAbsolute []
      (FilePath.ofText path).parent.parts with ⟨u, _ | e⟩
    · have hsize : (u.map f).draftSize path = u.draftSize path := rfl
      simp only [Prod.map_apply, id_eq, hsize]
      split
      · rfl
      · rw [locate_map]
        rcases u.locate (.ofText path) with e | ⟨place, _ | content | _⟩
        · rfl
        · exact congrArg (·, none) (map_set f u place (.file bytes)).symm
        · exact congrArg (·, none) (map_set f u place (.file bytes)).symm
        · rfl
    · rfl
  · rfl

end FileTree

namespace Backing

/-- The backing with all contents changed. -/
def map : Backing → Backing
  | none => none
  | memory content => memory (content.map f)
  | file path tree => file path (tree.map f)

variable (b : Backing)

theorem load_map : (b.map f).load = b.load.map (Option.map f) := by
  cases b with
  | none => rfl
  | memory content => rfl
  | file path tree =>
    rw [map, load, load, FileTree.read_map]
    rcases tree.read path with (_ | _) | bytes <;> rfl

theorem save_map (bytes : Bytes) :
    (b.map f).save (f bytes) = Prod.map id (map f) (b.save bytes) := by
  cases b with
  | none => rfl
  | memory content => rfl
  | file path tree =>
    rw [map, save, save, FileTree.write_map]
    rcases tree.write path bytes with ⟨u, _ | e⟩ <;> rfl

end Backing

end CircuitCache
