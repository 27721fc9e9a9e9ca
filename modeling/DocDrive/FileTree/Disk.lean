import DocDrive.FileTree.Basic

/-!
# Disks

A disk is a tree of directories, files and symbolic links. Paths are followed step by step through
links (`Disk.follow`); a walk yields what lies below a directory and does not follow links.

* `Disk.add` puts an entry at a path, through links.
* `Disk.walk` is `DiskFs.walk`: it lists parents before children and siblings by the bytes of their
  names, without what lies below a directory whose name starts with a dot.
* `Disk.openFile` is `DiskFs.open`.
* `Disk.toFileTree` is a `DiskFs`: the tree below a root, perhaps only so many levels deep.
-/

namespace DocDrive

/-- What a name on a disk stands for. The names of a directory are in the order of their bytes. -/
inductive DiskEntry where
  | file (data : Bytes)
  | directory (entries : List (Bytes × DiskEntry))
  | link (target : Path)
  deriving Inhabited

namespace DiskEntry

def isDirectory : DiskEntry → Bool
  | directory _ => true
  | _ => false

def child? (name : Bytes) : DiskEntry → Option DiskEntry
  | directory entries => (entries.find? (·.1 == name)).map (·.2)
  | _ => none

def descend? (names : List Bytes) (d : DiskEntry) : Option DiskEntry :=
  names.foldlM (fun d name => d.child? name) d

/-- Entries with one more, in the order of names; one of the same name is replaced. -/
def putNamed (name : Bytes) (entry : DiskEntry) :
    List (Bytes × DiskEntry) → List (Bytes × DiskEntry)
  | [] => [(name, entry)]
  | (n, old) :: rest =>
    match Component.compareBytes name n with
    | .lt => (name, entry) :: (n, old) :: rest
    | .eq => (name, entry) :: rest
    | .gt => (n, old) :: putNamed name entry rest

/-- An entry in the place of another. An empty directory changes nothing where a directory is. -/
def settle : DiskEntry → DiskEntry → DiskEntry
  | directory [], directory entries => directory entries
  | entry, _ => entry

/-- An entry put below another at a path of names; missing directories are made. -/
def put (entry : DiskEntry) : List Bytes → DiskEntry → DiskEntry
  | [], d => entry.settle d
  | name :: rest, d =>
    let inner := (d.child? name).getD (directory [])
    match d with
    | directory entries => directory (putNamed name (put entry rest inner) entries)
    | _ => directory [(name, put entry rest inner)]

end DiskEntry

/-- A disk, by its root directory. -/
structure Disk where
  root : DiskEntry := .directory []

namespace Disk

/-! ## Following paths -/

/-- The steps of a path; a slash at its end asks for a directory. -/
def steps (p : Path) : List Bytes :=
  let names := (Path.segments p.bytes).filter (· != [])
  if p.bytes.getLast? = some Component.slash then names ++ [[Component.dot]] else names

def maxLinks : Nat := 40

def maxName : Nat := 255

def pathBound : Nat := 4096

/-- The entry that steps lead to. `above` are the directories passed, the current one first. -/
def follow (root : DiskEntry) (links : Nat) (above : List DiskEntry) :
    List Bytes → Except DiskFault DiskEntry
  | [] => .ok (above.head?.getD root)
  | name :: rest =>
    let here := above.head?.getD root
    if !here.isDirectory then .error .notDirectory
    else if name.length > maxName then .error .nameTooLong
    else if name = [Component.dot] then follow root links above rest
    else if name = [Component.dot, Component.dot] then follow root links above.tail rest
    else
      match here.child? name with
      | none => .error .noEntry
      | some (.link target) =>
        match links with
        | 0 => .error .linkLoop
        | links + 1 =>
          let start := if target.isAbsolute then [] else above
          follow root links start (steps target ++ rest)
      | some entry => follow root links (entry :: above) rest
  termination_by rest => (links, rest.length)

/-- The entry at a path, for a process that works in `cwd`. -/
def find (d : Disk) (cwd p : Path) : Except DiskFault DiskEntry :=
  if p.bytes.contains 0 then .error .nulInPath
  else if p.bytes = [] then .error .noEntry
  else if p.bytes.length ≥ pathBound then .error .nameTooLong
  else follow d.root maxLinks [] (steps (if p.isAbsolute then p else cwd.join p))

/-! ## Adding entries -/

/-- The names that steps lead to, the last one first, and the disk on which they do: links are
followed, and directories are made for names that are missing. `above` are the names passed. -/
def reach (root : DiskEntry) (links : Nat) (above : List Bytes) :
    List Bytes → List Bytes × DiskEntry
  | [] => (above, root)
  | name :: rest =>
    if name = [Component.dot] then reach root links above rest
    else if name = [Component.dot, Component.dot] then reach root links above.tail rest
    else
      let names := name :: above
      match root.descend? names.reverse with
      | none => reach (DiskEntry.put (.directory []) names.reverse root) links names rest
      | some (.link target) =>
        match links with
        | 0 => (names, root)
        | links + 1 =>
          let start := if target.isAbsolute then [] else above
          reach root links start (steps target ++ rest)
      | some _ => reach root links names rest
  termination_by rest => (links, rest.length)

/-- The disk with an entry at an absolute path. Missing directories on the way are made. Links on
the way are followed, and so is one at the end, unless it is a link that is added. -/
def add (d : Disk) (p : Path) (entry : DiskEntry) : Disk :=
  let names := steps p
  match entry with
  | .link _ =>
    let (above, root) := reach d.root maxLinks [] names.dropLast
    ⟨DiskEntry.put entry (names.getLast?.toList ++ above).reverse root⟩
  | _ =>
    let (above, root) := reach d.root maxLinks [] names
    ⟨DiskEntry.put entry above.reverse root⟩

/-! ## Walking -/

/-- A directory that a walk leaves out, with all that lies below it. -/
def isPruned (name : Bytes) (entry : DiskEntry) : Bool :=
  entry.isDirectory && (Utf8.lossy name).head? == some '.'

/-- The path of a name below a directory of the walk. -/
def below (dir : Path) (name : Bytes) : Path := dir.join ⟨name⟩

mutual

/-- What lies below an entry, `depth` levels deep. -/
def walkEntry (dir : Path) : Nat → DiskEntry → List WalkEntry
  | depth + 1, .directory entries => walkEntries dir depth entries
  | _, _ => []

/-- Entries of a directory, each followed by what lies below it. -/
def walkEntries (dir : Path) (depth : Nat) : List (Bytes × DiskEntry) → List WalkEntry
  | [] => []
  | (name, entry) :: rest =>
    let path := below dir name
    let here :=
      if isPruned name entry then []
      else { path, isDirectory := entry.isDirectory } :: walkEntry path depth entry
    here ++ walkEntries dir depth rest

end

mutual

/-- The levels of directories in an entry. -/
def height : DiskEntry → Nat
  | .directory entries => 1 + heights entries
  | _ => 0

/-- The most levels of directories in entries. -/
def heights : List (Bytes × DiskEntry) → Nat
  | [] => 0
  | (_, entry) :: rest => max (height entry) (heights rest)

end

/-- The walk below the directory at `root`. At least the entries of that directory are listed. -/
def walk (d : Disk) (cwd root : Path) (maxDepth : Option Nat) : Except IoError (List WalkEntry) :=
  match d.find cwd root with
  | .error e => .error (.disk e)
  | .ok entry =>
    if entry.isDirectory then
      .ok (walkEntry .empty ((maxDepth.getD (height entry)).max 1) entry)
    else .error (.worded .invalidInput (root.display ++ " is not a directory"))

/-! ## Opening -/

def directorySize : Nat := 4096

/-- What opening an entry yields. A directory can be opened but not read. -/
def opened : DiskEntry → OpenFile
  | .file data => { stat := .ok ⟨data.length, some .clock⟩, ahead := [.bytes data] }
  | _ =>
    { stat := .ok ⟨directorySize, some .clock⟩, ahead := [], barrier := some (.disk .isDirectory) }

/-- What opening a path below `root` yields. -/
def openFile (d : Disk) (cwd root p : Path) : Except IoError OpenFile :=
  match d.find cwd (root.join p) with
  | .error e => .error (.disk e)
  | .ok entry => .ok (opened entry)

def toFileTree (d : Disk) (cwd root : Path) (maxDepth : Option Nat := none) : FileTree where
  walk := d.walk cwd root maxDepth
  openFile := d.openFile cwd root

end Disk

/-- Where a process runs: its working directory and the disk. -/
structure Host where
  cwd : Path
  disk : Disk := {}
  /-- What asking for the working directory fails with, where it is gone. -/
  lost : Option IoError := none

/-- Why a path cannot be made absolute. Only relative paths need the working directory. -/
def Host.refusal? (h : Host) (p : Path) : Option IoError := if p.isAbsolute then none else h.lost

end DocDrive
