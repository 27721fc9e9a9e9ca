import DocDrive.FileTree.Basic

/-!
# Trees in memory

A tree in memory is built entry by entry and keeps its entries in the order of paths. A file can be
told to fail at one step of its acquisition, and a directory to be unreadable.

* `MemoryTree.withParents` is `MemoryFs.ensure_parents`: what is missing above a path is stored as
  directories.
* `MemoryTree.withFile` is `MemoryFs.insert_file`, to which `MemoryFs.with_file`,
  `MemoryFs.with_undated_file` and `MemoryFs.with_faulty_file` come down;
  `MemoryTree.withUnreadable` is `MemoryFs.with_unreadable_dir`.
* `MemoryTree.walk` is `MemoryFs.walk`: it yields every entry that no unreadable directory stands
  above, parents first.
* `MemoryTree.openFile` is `MemoryFs.open`; what `MemFile` does is in `MemoryTree.opened`.
-/

namespace DocDrive

structure MemoryFile where
  data : Bytes
  modified : Option Moment := some .clock
  /-- The step at which acquiring the file fails. -/
  fault : Option AcquireStep := none
  deriving DecidableEq, Repr

/-- What a path of a tree in memory stands for. -/
inductive MemoryEntry where
  | file (f : MemoryFile)
  | directory (unreadable : Bool)
  deriving DecidableEq, Repr

/-- A tree in memory: entries in strictly increasing order of their paths. -/
structure MemoryTree where
  entries : List (Path × MemoryEntry) := []
  deriving DecidableEq, Repr

namespace MemoryTree

/-! ## Entries -/

/-- The entry at an address, however the address is spelled. -/
def find? (t : MemoryTree) (p : Path) : Option MemoryEntry :=
  (t.entries.find? fun e => e.1.same p).map (·.2)

/-- An entry put in its place among others. One at the same address is replaced but keeps its
spelling. -/
def put (p : Path) (entry : MemoryEntry) : List (Path × MemoryEntry) → List (Path × MemoryEntry)
  | [] => [(p, entry)]
  | (q, old) :: rest =>
    match p.order q with
    | .lt => (p, entry) :: (q, old) :: rest
    | .eq => (q, entry) :: rest
    | .gt => (q, old) :: put p entry rest

def insert (t : MemoryTree) (p : Path) (entry : MemoryEntry) : MemoryTree :=
  ⟨put p entry t.entries⟩

/-- The tree with a readable directory, unless something is there already. -/
def ensure (t : MemoryTree) (p : Path) : MemoryTree :=
  match t.find? p with
  | some _ => t
  | none => t.insert p (.directory false)

/-- The tree with every path above a path. -/
def withParents (t : MemoryTree) (p : Path) : MemoryTree := p.ancestors.foldl ensure t

def add (t : MemoryTree) (p : Path) (entry : MemoryEntry) : MemoryTree :=
  (t.withParents p).insert p entry

def withFile (t : MemoryTree) (p : Path) (f : MemoryFile) : MemoryTree := t.add p (.file f)

/-- The tree with a directory that the walk cannot look into. -/
def withUnreadable (t : MemoryTree) (p : Path) : MemoryTree := t.add p (.directory true)

/-! ## Faults -/

/-- A fault that a tree was told to show. -/
def injected (kind : ErrorKind) (step : String) (p : Path) : IoError :=
  .worded kind ("injected " ++ step ++ " failure for " ++ p.display)

/-! ## Walking -/

/-- The walk over entries in order, with the unreadable directories met so far. -/
def walkFrom (blocked : List Path) : List (Path × MemoryEntry) → List WalkEntry
  | [] => []
  | (p, entry) :: rest =>
    if blocked.any p.startsWith then walkFrom blocked rest
    else
      match entry with
      | .file _ => { path := p } :: walkFrom blocked rest
      | .directory false => { path := p, isDirectory := true } :: walkFrom blocked rest
      | .directory true =>
        { path := p, isDirectory := true
          error := some (injected .permissionDenied "readdir" p) } ::
          walkFrom (p :: blocked) rest

/-- Every entry that can be reached. -/
def walk (t : MemoryTree) : List WalkEntry := walkFrom [] t.entries

/-! ## Opening -/

/-- A file of the tree as it is opened under a spelling of its path. -/
def opened (f : MemoryFile) (p : Path) : OpenFile where
  stat :=
    if f.fault = some .stating then .error (injected .other "stat" p)
    else .ok ⟨f.data.length, f.modified⟩
  ahead := if f.fault = some .reading then [] else [.bytes f.data]
  barrier := if f.fault = some .reading then some (injected .other "read" p) else none

def openFile (t : MemoryTree) (p : Path) : Except IoError OpenFile :=
  match t.find? p with
  | none => .error (.worded .notFound (p.display ++ " does not exist"))
  | some (.directory _) => .error (.worded .invalidInput (p.display ++ " is a directory"))
  | some (.file f) =>
    if f.fault = some .opening then .error (injected .permissionDenied "open" p)
    else .ok (opened f p)

def toFileTree (t : MemoryTree) : FileTree where
  walk := .ok t.walk
  openFile := t.openFile

end MemoryTree

end DocDrive
