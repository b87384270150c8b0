import CircuitCache.OsError
import CircuitCache.Text.Utf8

/-!
# Trees of files

A tree holds files and directories, one of which is the working directory.  Paths are looked up as a
system does: each part but the last must be a directory, and a slash at the end asks for a
directory.  Names and paths may not be too long.
-/

namespace CircuitCache

/-- A path as its parts; an absolute one starts at the root. -/
structure FilePath where
  isAbsolute : Bool
  parts : List String
  deriving DecidableEq, Repr

namespace FilePath

/-- The pieces of a text between slashes. -/
def pieces (cs : List Char) : List (List Char) := cs.splitOn '/'

/-- The parts of a path text; a slash at the end stands for the part `.` after it. -/
def ofText (text : String) : FilePath :=
  let names := (pieces text.toList).filter (· ≠ [])
  let names := if names ≠ [] ∧ text.toList.getLast? = some '/' then names ++ [['.']] else names
  ⟨text.toList.head? = some '/', names.map String.ofList⟩

/-- The parts without the idle ones: a `.` counts only at the front of a relative path. -/
def plainParts (p : FilePath) : List String :=
  match p.isAbsolute, p.parts with
  | false, "." :: rest => "." :: rest.filter (· ≠ ".")
  | _, parts => parts.filter (· ≠ ".")

/-- The path of the directory that a path lies in. -/
def parent (p : FilePath) : FilePath := ⟨p.isAbsolute, p.plainParts.dropLast⟩

/-- The text of the path of the directory that a path text lies in.  Parts that do not count are
left out where it ends. -/
def parentText (text : String) : String :=
  let isIdle (piece : List Char) : Bool := piece = [] ∨ piece = ['.']
  let before := ((pieces text.toList).reverse.dropWhile isIdle).drop 1
  "/".intercalate ((before.dropWhile isIdle).reverse.map String.ofList)

/-- A path text with a name appended. -/
def join (directory name : String) : String :=
  if directory = "" ∨ directory.toList.getLast? = some '/' then directory ++ name
  else directory ++ "/" ++ name

end FilePath

/-- What a tree has at a place. -/
inductive FileNode where
  | file (content : Bytes)
  | directory
  deriving DecidableEq, Repr

/-- The names that lead from the root to a place. -/
abbrev Place := List String

/-- Files and directories by their places.  The working directory is at `location`; it and the
directories above it are always there. -/
structure FileTree where
  location : Place
  nodes : List (Place × FileNode)
  deriving DecidableEq, Repr

namespace FileTree

/-- A tree without files whose working directory is at an absolute path. -/
def empty (location : String) : FileTree := ⟨(FilePath.ofText location).parts, []⟩

/-- What is at a place.  The working directory and those above it are always there. -/
def node? (t : FileTree) (place : Place) : Option FileNode :=
  if place.isPrefixOf t.location then some .directory else t.nodes.lookup place

/-- The tree with a node at a place, in the place of what was there. -/
def set (t : FileTree) (place : Place) (n : FileNode) : FileTree :=
  { t with nodes := (place, n) :: t.nodes.filter (·.1 ≠ place) }

/-- The tree with nothing at a place. -/
def erase (t : FileTree) (place : Place) : FileTree :=
  { t with nodes := t.nodes.filter (·.1 ≠ place) }

/-! ### Looking up -/

/-- The most bytes a part of a path may have. -/
def maxNameSize : Nat := 255

/-- The most bytes a path may have. -/
def maxPathSize : Nat := 4095

/-- Where a part leads from a directory; the root is above itself. -/
def step (place : Place) (part : String) : Place :=
  if part = "." then place else if part = ".." then place.dropLast else place ++ [part]

/-- Where parts lead from a directory, and what is there. -/
def walk (t : FileTree) (place : Place) : List String → Except OsError (Place × Option FileNode)
  | [] => .ok (place, some .directory)
  | part :: rest =>
    if maxNameSize < part.utf8ByteSize then .error .nameTooLong
    else
      let next := step place part
      match t.node? next, rest with
      | n, [] => .ok (next, n)
      | some .directory, rest => walk t next rest
      | some (.file _), _ => .error .notADirectory
      | none, _ => .error .notFound

/-- Where a path leads, and what is there. -/
def locate (t : FileTree) (p : FilePath) : Except OsError (Place × Option FileNode) :=
  if p.isAbsolute then t.walk [] p.parts
  else if p.parts = [] then .error .notFound
  else t.walk t.location p.parts

/-- Why a system does not even look for a path text. -/
def refusal? (path : String) : Option OsError :=
  if path.toList.contains '\x00' then some .badName
  else if maxPathSize < path.utf8ByteSize then some .nameTooLong
  else none

/-- Where a path text leads, and what is there. -/
def find (t : FileTree) (path : String) : Except OsError (Place × Option FileNode) :=
  match refusal? path with
  | some e => .error e
  | none => t.locate (FilePath.ofText path)

/-- Whether a path leads to a file or a directory; a path that cannot be followed does not. -/
def exists? (t : FileTree) (path : String) : Bool :=
  match t.find path with
  | .ok (_, some _) => true
  | _ => false

/-! ### Operations -/

/-- The bytes of the file at a path. -/
def read (t : FileTree) (path : String) : Except OsError Bytes :=
  match t.find path with
  | .error e => .error e
  | .ok (_, none) => .error .notFound
  | .ok (_, some .directory) => .error .isADirectory
  | .ok (_, some (.file content)) => .ok content

/-- The tree without the file at a path. -/
def remove (t : FileTree) (path : String) : Except OsError FileTree :=
  match t.find path with
  | .error e => .error e
  | .ok (_, none) => .error .notFound
  | .ok (_, some .directory) => .error .isADirectory
  | .ok (place, some (.file _)) => .ok (t.erase place)

/-- Makes the directory at a path unless it is there. -/
def makeDirectory (t : FileTree) (p : FilePath) : Except OsError FileTree :=
  match t.locate p with
  | .error e => .error e
  | .ok (_, some .directory) => .ok t
  | .ok (_, some (.file _)) => .error .alreadyThere
  | .ok (place, none) => .ok (t.set place .directory)

/-- Makes the directories at the prefixes `done ++ [p₁]`, `done ++ [p₁, p₂]` and so on; those made
before a failure remain. -/
def makeDirectories (t : FileTree) (isAbsolute : Bool) (done : List String) :
    List String → FileTree × Option OsError
  | [] => (t, none)
  | part :: rest =>
    match t.makeDirectory ⟨isAbsolute, done ++ [part]⟩ with
    | .error e => (t, some e)
    | .ok t => t.makeDirectories isAbsolute (done ++ [part]) rest

/-- How many bytes there are in the names of a path with slashes before them. -/
def sizeOfPlace (place : Place) : Nat := place.foldl (fun n name => n + 1 + name.utf8ByteSize) 0

/-- How many bytes the name has under which content is first written. -/
def draftNameSize : Nat := 10

/-- How many bytes the path has under which content is first written: from the root, and in the
directory of the file itself. -/
def draftSize (t : FileTree) (path : String) : Nat :=
  let start := if (FilePath.ofText path).isAbsolute then 0 else sizeOfPlace t.location + 1
  start + (FilePath.parentText path).utf8ByteSize + 1 + draftNameSize

/-- Replaces the content of a file as a whole, and makes the directories above it. -/
def write (t : FileTree) (path : String) (content : Bytes) : FileTree × Option OsError :=
  match refusal? path with
  | some e => (t, some e)
  | none =>
    let p := FilePath.ofText path
    match t.makeDirectories p.isAbsolute [] p.parent.parts with
    | (t, some e) => (t, some e)
    | (t, none) =>
      if maxPathSize < t.draftSize path then (t, some .nameTooLong)
      else
        match t.locate p with
        | .error e => (t, some e)
        | .ok (_, some .directory) => (t, some .isADirectory)
        | .ok (place, _) => (t.set place (.file content), none)

end FileTree

end CircuitCache
