import DocDrive.Handle

/-!
# Drives

A drive is one address space of records: every record is filed under its normal absolute path, and
any spelling of that path leads to it. The entries are fixed once the drive is made.

* `Drive` is `VirtualFileSystem`, and what `FileSource` asks of it.
* `Drive.resolve`, `Drive.lookup` and `Drive.openFile` are `FileSource.resolve`, `FileSource.lookup`
  and `FileSource.open`. They take any spelling of a path, relative ones from the root of the drive.
* `Drive.sortedEntries` lists the entries in the order of paths.
-/

namespace DocDrive

/-- Records by their paths. Paths are normal, so one address has one spelling. -/
abbrev Entries := List (Path × Shared Record)

def Entries.has (entries : Entries) (p : Path) : Bool := (entries.lookup p).isSome

/-- One address space of records. -/
structure Drive where
  /-- Where relative paths start. -/
  root : Path
  entries : Entries
  /-- Problems met while the records were discovered. -/
  errors : List DiscoveryError

namespace Drive

/-- The address that a spelling names. -/
def resolve (d : Drive) (p : Path) : Path := d.root.resolveAgainst p

/-- The record at an address, however it is spelled. -/
def lookup (d : Drive) (p : Path) : Option (Shared Record) := d.entries.lookup (d.resolve p)

/-- A fresh handle on the record at an address. -/
def openFile (d : Drive) (p : Path) : Except DriveError Handle :=
  match d.lookup p with
  | some record => .ok { record }
  | none => .error (.notFound (d.resolve p))

def size (d : Drive) : Nat := d.entries.length

def sortedEntries (d : Drive) : Entries := d.entries.mergeSort fun a b => a.1.le b.1

def debugText (d : Drive) : String :=
  Quoted.fields "VirtualFileSystem" [
    ("root_directory", Quoted.path d.root),
    ("entries", toString d.size),
    ("discovery_errors", toString d.errors.length)]

end Drive

end DocDrive
