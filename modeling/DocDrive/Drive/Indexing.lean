import DocDrive.Drive.Basic

/-!
# Indexing a drive

`Drive.indexAll` is `VirtualFileSystem.index_all`: it requests the index of every record. It never
fails as a whole: each file is either indexed or failed, and the report lists both by path.
-/

namespace DocDrive

/-- What indexing a drive came to, in the order of paths. -/
structure IndexReport where
  indexed : List (Path × Derived StructuralIndex)
  /-- Files that were read but could not be parsed or indexed. -/
  failed : List (Path × DriveError)
  /-- The problems of the discovery. -/
  unreadable : List DiscoveryError

namespace IndexReport

def isComplete (r : IndexReport) : Bool := r.failed.isEmpty && r.unreadable.isEmpty

/-- The report of results in any order. -/
def ofResults (results : List (Path × Except DriveError (Derived StructuralIndex)))
    (unreadable : List DiscoveryError) : IndexReport :=
  let sorted := results.mergeSort fun a b => a.1.le b.1
  { indexed := sorted.filterMap fun r => match r.2 with
      | .ok index => some (r.1, index)
      | .error _ => none
    failed := sorted.filterMap fun r => match r.2 with
      | .ok _ => none
      | .error e => some (r.1, e)
    unreadable }

end IndexReport

/-- Requests for the indexes of records, one after the other. -/
def Caches.requestAll (c : Caches) (indexer : Indexer) (config : IndexConfig) :
    Entries → List (Path × Except DriveError (Derived StructuralIndex)) × Caches
  | [] => ([], c)
  | (p, r) :: rest =>
    let (result, c) := c.requestIndex r indexer config
    let (results, c) := c.requestAll indexer config rest
    ((p, result) :: results, c)

/-- Index the records of a drive in a given order. -/
def Drive.indexInOrder (d : Drive) (order : Entries) (indexer : Indexer) (config : IndexConfig)
    (c : Caches) : IndexReport × Caches :=
  let (results, c) := c.requestAll indexer config order
  (IndexReport.ofResults results d.errors, c)

def Drive.indexAll (d : Drive) (indexer : Indexer) (config : IndexConfig) (c : Caches) :
    IndexReport × Caches :=
  d.indexInOrder d.entries indexer config c

end DocDrive
