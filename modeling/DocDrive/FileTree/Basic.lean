import DocDrive.Error

/-!
# File trees

A file tree is what a discovery walks and opens: a disk, a tree in memory, or a listing.

* `FileTree` is `DirFs`, given by the results of `DirFs.walk` and `DirFs.open`.
* `OpenFile` is `SourceFile`: an opened file is what its reads deliver, part by part.
  `OpenFile.read` takes at most so many bytes of the next part, and `OpenFile.readAll` takes
  everything up to the end or to the first fault that is not a mere interruption.
-/

namespace DocDrive

/-- A point in time: nanoseconds since the epoch, fewer than none before it, or a reading of the
clock. -/
inductive Moment where
  | known (nanoseconds : Int)
  | clock
  deriving DecidableEq, Repr

/-! ## Walks -/

/-- One step of a walk. The path starts at the root of the walk. -/
structure WalkEntry where
  path : Path
  isDirectory : Bool := false
  error : Option IoError := none

/-! ## Opened files -/

/-- What is known about a file without reading it. -/
structure FileStat where
  size : Nat
  modified : Option Moment
  deriving DecidableEq, Repr

/-- What reads of a file meet next. -/
inductive Delivery where
  | bytes (data : Bytes)
  /-- A fault that is met once. -/
  | fault (error : IoError)

structure OpenFile where
  stat : Except IoError FileStat
  ahead : List Delivery
  /-- The fault that every read meets at the end of what is ahead; none at the end of a file. -/
  barrier : Option IoError := none

namespace OpenFile

/-- What a read finds where nothing is ahead. -/
def atEnd (barrier : Option IoError) : Except IoError Bytes :=
  match barrier with
  | none => .ok []
  | some e => .error e

/-- A read of at most `n` bytes: what it yields, and what is ahead after it. -/
def readAhead (barrier : Option IoError) (n : Nat) : List Delivery →
    Except IoError Bytes × List Delivery
  | [] => (atEnd barrier, [])
  | .fault e :: rest => (.error e, rest)
  | .bytes [] :: rest => readAhead barrier n rest
  | .bytes data :: rest => (.ok (data.take n), .bytes (data.drop n) :: rest)

/-- A read of at most `n` bytes, and the file after it. -/
def read (f : OpenFile) (n : Nat) : Except IoError Bytes × OpenFile :=
  let (result, ahead) := readAhead f.barrier n f.ahead
  (result, { f with ahead })

/-- Everything that is ahead. A read that was interrupted is tried again. -/
def readAllAhead (barrier : Option IoError) : List Delivery → Except IoError Bytes
  | [] => atEnd barrier
  | .fault e :: rest =>
    if e.kind = .interrupted then readAllAhead barrier rest else .error e
  | .bytes data :: rest =>
    match readAllAhead barrier rest with
    | .ok more => .ok (data ++ more)
    | .error e => .error e

/-- The file from here to its end. -/
def readAll (f : OpenFile) : Except IoError Bytes := readAllAhead f.barrier f.ahead

end OpenFile

/-! ## Trees -/

/-- A tree of files. The walk fails only if it cannot start; a problem with one entry is part of
that entry. -/
structure FileTree where
  walk : Except IoError (List WalkEntry)
  openFile : Path → Except IoError OpenFile

end DocDrive
