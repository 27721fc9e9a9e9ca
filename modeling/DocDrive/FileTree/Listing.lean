import DocDrive.FileTree.Basic

/-!
# Listings

A listing is a tree given by what its walk yields and by what its files do. Nothing ties the two
together, so a walk may name files that are not there, or one file several times.
-/

namespace DocDrive

/-- A file of a listing: it opens or not, has a stat or not, and is read with or without a fault on
the way. -/
structure ListedFile where
  path : Path
  data : Bytes
  opening : Option IoError := none
  stat : Except IoError FileStat
  /-- A fault that is met once, after so many bytes. -/
  fault : Option (Nat × IoError) := none

namespace ListedFile

/-- What reads of the file meet. A file that is too short never reaches its fault. -/
def deliveries (f : ListedFile) : List Delivery :=
  match f.fault with
  | none => [.bytes f.data]
  | some (after, e) =>
    if after ≤ f.data.length then
      [.bytes (f.data.take after), .fault e, .bytes (f.data.drop after)]
    else [.bytes f.data]

end ListedFile

structure Listing where
  walk : Except IoError (List WalkEntry)
  files : List ListedFile

namespace Listing

/-- What opening a path yields: the first file at that address. -/
def openFile (t : Listing) (p : Path) : Except IoError OpenFile :=
  match t.files.find? fun f => f.path.same p with
  | none => .error (.plain .notFound)
  | some f =>
    match f.opening with
    | some e => .error e
    | none => .ok { stat := f.stat, ahead := f.deliveries }

def toFileTree (t : Listing) : FileTree := ⟨t.walk, t.openFile⟩

end Listing

end DocDrive
