import DocDrive.Drive.Basic
import DocDrive.FileTree.Disk
import DocDrive.Transcript

/-!
# Discovery

A discovery makes a drive of one file tree. It walks the tree once and acquires every admitted file:
the file is opened, its stat is taken, and it is read to its end. A failure on one file is noted,
and the walk goes on; only a base that cannot be placed or a walk that cannot start ends the
discovery.

A base that names a YAML or JSON file makes a drive of that file alone.

* `DiscoveryConfig` is `LocalFsConfig`, without its observer: what an observer would be told is the
  `transcript` of the drive.
* `acquire` is `Catalogue.acquire` up to the filing of the record.
* `Scope.visit` and `catalogue` are the loop of `LocalFs.new`. What an entry comes to depends on
  nothing but that entry; the records are then filed in the order of the walk, and the first claim
  to a path wins.
* `discover` is `LocalFs.new`.
-/

namespace DocDrive

/-! ## What is asked for -/

structure DiscoveryConfig where
  /-- A directory, or one YAML or JSON file. -/
  base : Path := .ofString "."
  /-- The paths to admit, as the walk spells them. All are admitted without a list. -/
  filters : Option (List String) := none
  /-- The tree to walk; the disk below the base, if none is given. -/
  tree : Option FileTree := none

def DiscoveryConfig.debugText (c : DiscoveryConfig) : String :=
  Quoted.fields "LocalFsConfig" [
    ("base_directory", Quoted.path c.base),
    ("file_filters", Quoted.option (c.filters.map fun fs => Quoted.list (fs.map Quoted.text))),
    ("dir_fs", Quoted.option (c.tree.map fun _ => Quoted.text "<custom>"))]

/-- What a discovery covers: a directory, or one file in it. -/
structure Scope where
  directory : Path
  /-- The name of the only file that counts. -/
  only : Option Path
  filters : Option (List String)

/-- What a request covers, for a process that works in `cwd`. -/
def DiscoveryConfig.scope (c : DiscoveryConfig) (cwd : Path) : Scope :=
  let base := Path.absolutize cwd c.base
  if (FileClass.classify c.base).isSupported then
    ⟨base.parent.getD base, base.fileName.map Path.mk, c.filters⟩
  else ⟨base, none, c.filters⟩

/-- The tree that a request is about. One file needs no look below its directory. -/
def DiscoveryConfig.fileTree (c : DiscoveryConfig) (host : Host) : FileTree :=
  match c.tree with
  | some tree => tree
  | none =>
    let scope := c.scope host.cwd
    host.disk.toFileTree host.cwd scope.directory (if scope.only.isSome then some 1 else none)

/-! ## One file -/

/-- What acquiring one file came to: failures in order, and the record if the file was read. -/
structure Acquisition where
  failures : List AcquisitionError
  record : Option Record
  deriving DecidableEq, Repr

/-- Open, stat and read the file at `p`, which is filed below `directory`. A file without a stat has
the size of its content; without a time it is as new as the discovery. -/
def acquire (tree : FileTree) (directory p : Path) : Acquisition :=
  let path := directory.resolveAgainst p
  match tree.openFile p with
  | .error e => ⟨[.ofIo .opening path e], none⟩
  | .ok file =>
    let failures := match file.stat with
      | .error e => [AcquisitionError.ofIo .stating path e]
      | .ok _ => []
    match file.readAll with
    | .error e => ⟨failures ++ [.ofIo .reading path e], none⟩
    | .ok content =>
      let (size, modified) := match file.stat with
        | .ok stat => (stat.size, stat.modified.getD .clock)
        | .error _ => (content.length, .clock)
      ⟨failures, some
        { logicalName := p, absolutePath := path, content, modified, size, errors := failures }⟩

/-! ## One entry of the walk -/

/-- What one entry of a walk comes to. -/
inductive Visit where
  /-- A directory, or a file that is not the only one that counts. -/
  | passed
  | failed (path : Path) (kind : ErrorKind) (message : String)
  | rejected (path : Path) (reason : Rejection)
  | acquired (result : Acquisition)
  deriving DecidableEq, Repr

/-- An entry that does not count for the scope. -/
def Scope.ignores (s : Scope) (p : Path) : Bool :=
  match s.only with
  | some only => !p.same only
  | none => false

/-- What an entry of the walk comes to. -/
def Scope.visit (s : Scope) (tree : FileTree) (e : WalkEntry) : Visit :=
  if s.ignores e.path then .passed
  else
    match e.error with
    | some error => .failed (s.directory.resolveAgainst e.path) error.kind error.message
    | none =>
      if e.isDirectory then .passed
      else
        match admission s.filters e.path with
        | .error reason => .rejected e.path reason
        | .ok _ => .acquired (acquire tree s.directory e.path)

namespace Visit

def record? : Visit → Option Record
  | acquired result => result.record
  | _ => none

/-- The problems that a visit adds to the list of the drive. -/
def errors : Visit → List DiscoveryError
  | failed path kind message => [.walk path kind message]
  | acquired result => result.failures.map .acquisition
  | _ => []

/-- What the transcript tells about a record that arrives where some paths are taken. -/
def claimEvent (taken : Entries) (r : Record) : Event :=
  if taken.has r.absolutePath then .duplicateDropped r.absolutePath
  else .collected r.absolutePath r.size

def events (taken : Entries) : Visit → List Event
  | passed => []
  | failed path _ message => [.walkFailed path message]
  | rejected path reason => [.skipped path reason]
  | acquired result =>
    result.failures.map .acquisitionFailed ++ result.record.toList.map (claimEvent taken)

end Visit

/-! ## The whole walk -/

structure Catalogue where
  entries : Entries
  errors : List DiscoveryError
  events : List Event

/-- Entries with a record, unless its path is taken. Records are numbered from `first` in the order
of their arrival. -/
def Entries.claim (entries : Entries) (first : Nat) (r : Record) : Entries :=
  if entries.has r.absolutePath then entries
  else entries ++ [(r.absolutePath, ⟨first + entries.length, r⟩)]

/-- Visits in the order of the walk, after those that brought `taken`. -/
def catalogue (first : Nat) (taken : Entries) : List Visit → Catalogue
  | [] => ⟨taken, [], []⟩
  | v :: rest =>
    let now := match v.record? with
      | some r => taken.claim first r
      | none => taken
    let later := catalogue first now rest
    ⟨later.entries, v.errors ++ later.errors, v.events taken ++ later.events⟩

/-- A drive as its discovery leaves it. -/
structure LocalDrive extends Drive where
  /-- The base as it was asked for. -/
  entryPoint : Path
  /-- What the discovery did, in order. -/
  transcript : List Event

/-- Walk a tree and acquire its files. Records are numbered from `first`. -/
def discover (host : Host) (first : Nat) (c : DiscoveryConfig) : Except DriveError LocalDrive :=
  match host.refusal? c.base with
  | some e => .error (.io e)
  | none =>
    let scope := c.scope host.cwd
    let tree := c.fileTree host
    match tree.walk with
    | .error e => .error (.discovery scope.directory e)
    | .ok entries =>
      let found := catalogue first [] (entries.map (scope.visit tree))
      let finished :=
        Event.finished scope.directory found.entries.length found.errors.length .unmeasured
      .ok {
        root := scope.directory
        entries := found.entries
        errors := found.errors
        entryPoint := c.base
        transcript := found.events ++ [finished]
      }

def LocalDrive.debugText (d : LocalDrive) : String :=
  Quoted.fields "LocalFs" [
    ("entry_point", Quoted.path d.entryPoint),
    ("base_directory", Quoted.path d.root),
    ("files", toString d.size),
    ("errors", toString d.errors.length)]

end DocDrive
