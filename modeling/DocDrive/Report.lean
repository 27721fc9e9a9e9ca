import DocDrive.Drive.Indexing
import DocDrive.Json.Pretty

/-!
# Reports

A report tells what indexing a drive came to: a row for every indexed and every failed file, and a
line for every problem of the discovery. It is printed as text or as JSON; JSON holds text only, so
there is none for a report with a path that is no text.

* `Report.ofIndexing` is `summarize`, and `Report.lines` is `print_summary`.
-/

namespace DocDrive

structure IndexedRow where
  file : FileSummary
  nodes : Nat
  localReferences : Nat
  externalReferences : Nat
  externalFiles : List Path
  deriving DecidableEq, Repr

/-- A file that could not be indexed. -/
structure FailedRow where
  path : Path
  error : String
  cause : String
  deriving DecidableEq, Repr

/-- What indexing a drive came to, in words. -/
structure Report where
  root : Path
  indexed : List IndexedRow
  failed : List FailedRow
  unreadable : List String
  deriving DecidableEq, Repr

/-! ## Rows -/

/-- The row of an index and the record it belongs to. -/
def IndexedRow.ofRecord (r : Record) (x : StructuralIndex) : IndexedRow :=
  ⟨r.summary, x.nodes, x.localReferences.length, x.externalReferences.length, x.externalFiles⟩

def FailedRow.ofError (p : Path) (e : DriveError) : FailedRow := ⟨p, e.message, e.rootCause⟩

/-- The report on a drive. An index whose path is not filed in the drive has no row. -/
def Report.ofIndexing (d : Drive) (r : IndexReport) : Report where
  root := d.root
  indexed := r.indexed.filterMap fun e =>
    (d.entries.lookup e.1).map fun record => .ofRecord record.value e.2.value
  failed := r.failed.map fun e => .ofError e.1 e.2
  unreadable := r.unreadable.map DiscoveryError.display

/-! ## Text -/

def IndexedRow.lines (r : IndexedRow) : List String :=
  ("  ✓ " ++ r.file.logicalName.display ++ " [" ++ r.file.fileClass.name ++ ", " ++
    toString r.file.size ++ " bytes] nodes=" ++ toString r.nodes ++ " refs=" ++
    toString r.localReferences ++ " local / " ++ toString r.externalReferences ++ " external") ::
  r.externalFiles.map fun p => "      → " ++ p.display

def FailedRow.line (r : FailedRow) : String :=
  "  ✗ " ++ r.path.display ++ ": " ++ r.error ++ " (" ++ r.cause ++ ")"

def Report.lines (r : Report) : List String :=
  ("Root: " ++ r.root.display) :: r.indexed.flatMap IndexedRow.lines ++
    r.failed.map FailedRow.line ++ r.unreadable.map ("  ! " ++ ·)

/-! ## JSON -/

def Path.json? (p : Path) : Option Json.Value := p.toString?.map .string

def Json.Value.texts (texts : List String) : Json.Value := .array (texts.map .string)

def IndexedRow.json? (r : IndexedRow) : Option Json.Value := do
  let path ← r.file.path.json?
  let logicalName ← r.file.logicalName.json?
  let externalFiles ← r.externalFiles.mapM Path.json?
  return .object [
    ("path", path),
    ("logical_name", logicalName),
    ("extension", .string r.file.fileClass.name),
    ("size", .number r.file.size),
    ("errors", .texts r.file.errors),
    ("nodes", .number r.nodes),
    ("local_refs", .number r.localReferences),
    ("external_refs", .number r.externalReferences),
    ("external_files", .array externalFiles)]

def FailedRow.json? (r : FailedRow) : Option Json.Value := do
  let path ← r.path.json?
  return .object [("path", path), ("error", .string r.error), ("cause", .string r.cause)]

/-- A report, if all its paths are text. -/
def Report.json? (r : Report) : Option Json.Value := do
  let root ← r.root.json?
  let indexed ← r.indexed.mapM IndexedRow.json?
  let failed ← r.failed.mapM FailedRow.json?
  return .object [
    ("root", root),
    ("indexed", .array indexed),
    ("failed", .array failed),
    ("unreadable", .texts r.unreadable)]

end DocDrive
