import DocDrive.Document
import DocDrive.FileTree.Basic
import DocDrive.Index
import DocDrive.Memo
import DocDrive.Text.Quoted

/-!
# File records

A record is one discovered document file. Its content and facts are fixed once it is made. What is
derived from the content, the document and its index, is made on request and at most once:
`FileState` holds the two cells of a record and counts the runs that worked on it.

* `Record` is `FileRecord`, without its two cells.
* `Record.requestTree` is `FileRecord.get_parsed_tree_with`: it answers with the cached document, or
  runs a parser.
* `Record.requestIndex` is `FileRecord.get_or_build_index`: it answers with the cached index, or
  builds it from the cached document.
-/

namespace DocDrive

/-! ## Facts -/

structure Record where
  /-- The path as it was discovered, seen from the root of its source. -/
  logicalName : Path
  absolutePath : Path
  content : Bytes
  modified : Moment := .clock
  size : Nat := content.length
  /-- Problems met while the file was acquired. -/
  errors : List AcquisitionError := []
  deriving DecidableEq, Repr

/-- What a stat of a record shows. -/
structure FileInfo where
  name : String
  size : Nat
  modified : Moment
  isDirectory : Bool
  mode : Nat
  deriving DecidableEq, Repr

/-- What reports tell about a record. -/
structure FileSummary where
  path : Path
  logicalName : Path
  fileClass : FileClass
  size : Nat
  errors : List String
  deriving DecidableEq, Repr

namespace Record

/-- The last name of the path, empty if it has none. -/
def name (r : Record) : String :=
  match r.logicalName.fileName with
  | some name => Utf8.toStringLossy name
  | none => ""

/-- What the file holds, judged by its name. -/
def fileClass (r : Record) : FileClass := FileClass.classify r.logicalName

def text (r : Record) : String := Utf8.toStringLossy r.content

def info (r : Record) : FileInfo := ⟨r.name, r.size, r.modified, false, 0⟩

def summary (r : Record) : FileSummary :=
  ⟨r.absolutePath, r.logicalName, r.fileClass, r.size, r.errors.map AcquisitionError.display⟩

def display (r : Record) : String :=
  r.absolutePath.display ++ " (" ++ r.fileClass.name ++ ", size: " ++ toString r.size ++ ")"

end Record

/-! ## Derived values -/

/-- What has been derived from a record so far. -/
structure FileState where
  tree : Cell (Derived Node) := .empty
  index : Cell (Derived StructuralIndex) := .empty
  parses : Nat := 0
  indexings : Nat := 0

namespace Record

/-- The parser that a record gets unless its caller picks one. -/
def parser (r : Record) : Parser := Parser.ofClass r.fileClass

/-- One run of a parser on the content. `file` is the number of the record. -/
def runParser (r : Record) (file : Nat) (parser : Parser) (parses : Nat) :
    Except DriveError (Derived Node) × Nat :=
  match parser r.content with
  | .ok node => (.ok ⟨file, parses, node⟩, parses + 1)
  | .error cause => (.error (.parse r.absolutePath cause), parses + 1)

/-- The cached document, or one run of a parser. -/
def requestTree (r : Record) (file : Nat) (parser : Parser) (s : FileState) :
    Except DriveError (Derived Node) × FileState :=
  let (result, tree, parses) := s.tree.obtain (r.runParser file parser) s.parses
  (result, { s with tree, parses })

/-- One run of an indexer on the document, which is requested first. The index belongs to the path
of the record, whatever the indexer says. -/
def runIndexer (r : Record) (file : Nat) (indexer : Indexer) (config : IndexConfig)
    (s : FileState) : Except DriveError (Derived StructuralIndex) × FileState :=
  match r.requestTree file r.parser s with
  | (.error e, s) => (.error e, s)
  | (.ok root, s) =>
    let ran := { s with indexings := s.indexings + 1 }
    match indexer root config with
    | .ok index => (.ok ⟨file, s.indexings, index.withOrigin r.absolutePath⟩, ran)
    | .error cause => (.error (.index r.absolutePath cause), ran)

/-- The cached index, or one run of an indexer. -/
def requestIndex (r : Record) (file : Nat) (indexer : Indexer) (config : IndexConfig)
    (s : FileState) : Except DriveError (Derived StructuralIndex) × FileState :=
  let (result, index, s) := s.index.obtain (r.runIndexer file indexer config) s
  (result, { s with index })

def debugText (r : Record) (s : FileState) : String :=
  Quoted.fields "FileRecord" [
    ("logical_name", Quoted.path r.logicalName),
    ("absolute_path", Quoted.path r.absolutePath),
    ("extension", r.fileClass.name),
    ("size", toString r.size),
    ("errors", toString r.errors.length),
    ("parsed", toString s.tree.isReady),
    ("indexed", toString s.index.isReady)]

end Record

/-! ## The states of all records -/

/-- The state of every record, by its number. A record without an entry is untouched. -/
structure Caches where
  states : List (Nat × FileState) := []

namespace Caches

def state (c : Caches) (file : Nat) : FileState := (c.states.lookup file).getD {}

/-- The caches with a new state of a record. -/
def update (c : Caches) (file : Nat) (s : FileState) : Caches :=
  ⟨(file, s) :: c.states.filter (·.1 != file)⟩

def requestTree (c : Caches) (r : Shared Record) (parser : Parser) :
    Except DriveError (Derived Node) × Caches :=
  let (result, s) := r.value.requestTree r.number parser (c.state r.number)
  (result, c.update r.number s)

def requestIndex (c : Caches) (r : Shared Record) (indexer : Indexer) (config : IndexConfig) :
    Except DriveError (Derived StructuralIndex) × Caches :=
  let (result, s) := r.value.requestIndex r.number indexer config (c.state r.number)
  (result, c.update r.number s)

/-- Runs of indexers so far. -/
def indexings (c : Caches) : Nat := c.states.foldl (fun n row => n + row.2.indexings) 0

end Caches

end DocDrive
