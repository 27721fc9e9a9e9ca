import DocDrive.Path

/-!
# Errors

Three kinds of failure: an input/output error (`IoError`), a failed step on one file or one walked
entry (`AcquisitionError`, `DiscoveryError`), and an error of the drive itself (`DriveError`). An
input/output error may carry a drive error, and a drive error may carry an input/output error.

* `DriveError.kind` and `DriveError.isNotFound` are `DriveError.kind` and `DriveError.is_not_found`;
  `DriveError.toIo` is the conversion to `io.Error`, without loss.
* `message` gives the wording, `chain` the wordings of the causes from the outermost to the root;
  `DriveError.rootCause` is `root_cause`.
* `AcquisitionError.ofIo` is `AcquisitionError.new`.
-/

namespace DocDrive

/-! ## Input/output errors -/

/-- The kinds of input/output error. -/
inductive ErrorKind where
  | notFound
  | permissionDenied
  | connectionRefused
  | connectionReset
  | hostUnreachable
  | networkUnreachable
  | connectionAborted
  | notConnected
  | addrInUse
  | addrNotAvailable
  | networkDown
  | brokenPipe
  | alreadyExists
  | wouldBlock
  | notADirectory
  | isADirectory
  | directoryNotEmpty
  | readOnlyFilesystem
  | filesystemLoop
  | staleNetworkFileHandle
  | invalidInput
  | invalidData
  | timedOut
  | writeZero
  | storageFull
  | notSeekable
  | quotaExceeded
  | fileTooLarge
  | resourceBusy
  | executableFileBusy
  | deadlock
  | crossesDevices
  | tooManyLinks
  | invalidFilename
  | argumentListTooLong
  | interrupted
  | unsupported
  | unexpectedEof
  | outOfMemory
  | inProgress
  | other
  | uncategorized
  deriving DecidableEq, Repr

namespace ErrorKind

def name : ErrorKind → String
  | notFound => "NotFound"
  | permissionDenied => "PermissionDenied"
  | connectionRefused => "ConnectionRefused"
  | connectionReset => "ConnectionReset"
  | hostUnreachable => "HostUnreachable"
  | networkUnreachable => "NetworkUnreachable"
  | connectionAborted => "ConnectionAborted"
  | notConnected => "NotConnected"
  | addrInUse => "AddrInUse"
  | addrNotAvailable => "AddrNotAvailable"
  | networkDown => "NetworkDown"
  | brokenPipe => "BrokenPipe"
  | alreadyExists => "AlreadyExists"
  | wouldBlock => "WouldBlock"
  | notADirectory => "NotADirectory"
  | isADirectory => "IsADirectory"
  | directoryNotEmpty => "DirectoryNotEmpty"
  | readOnlyFilesystem => "ReadOnlyFilesystem"
  | filesystemLoop => "FilesystemLoop"
  | staleNetworkFileHandle => "StaleNetworkFileHandle"
  | invalidInput => "InvalidInput"
  | invalidData => "InvalidData"
  | timedOut => "TimedOut"
  | writeZero => "WriteZero"
  | storageFull => "StorageFull"
  | notSeekable => "NotSeekable"
  | quotaExceeded => "QuotaExceeded"
  | fileTooLarge => "FileTooLarge"
  | resourceBusy => "ResourceBusy"
  | executableFileBusy => "ExecutableFileBusy"
  | deadlock => "Deadlock"
  | crossesDevices => "CrossesDevices"
  | tooManyLinks => "TooManyLinks"
  | invalidFilename => "InvalidFilename"
  | argumentListTooLong => "ArgumentListTooLong"
  | interrupted => "Interrupted"
  | unsupported => "Unsupported"
  | unexpectedEof => "UnexpectedEof"
  | outOfMemory => "OutOfMemory"
  | inProgress => "InProgress"
  | other => "Other"
  | uncategorized => "Uncategorized"

/-- What a bare error of a kind says. -/
def description : ErrorKind → String
  | notFound => "entity not found"
  | permissionDenied => "permission denied"
  | connectionRefused => "connection refused"
  | connectionReset => "connection reset"
  | hostUnreachable => "host unreachable"
  | networkUnreachable => "network unreachable"
  | connectionAborted => "connection aborted"
  | notConnected => "not connected"
  | addrInUse => "address in use"
  | addrNotAvailable => "address not available"
  | networkDown => "network down"
  | brokenPipe => "broken pipe"
  | alreadyExists => "entity already exists"
  | wouldBlock => "operation would block"
  | notADirectory => "not a directory"
  | isADirectory => "is a directory"
  | directoryNotEmpty => "directory not empty"
  | readOnlyFilesystem => "read-only filesystem or storage medium"
  | filesystemLoop => "filesystem loop or indirection limit (e.g. symlink loop)"
  | staleNetworkFileHandle => "stale network file handle"
  | invalidInput => "invalid input parameter"
  | invalidData => "invalid data"
  | timedOut => "timed out"
  | writeZero => "write zero"
  | storageFull => "no storage space"
  | notSeekable => "seek on unseekable file"
  | quotaExceeded => "quota exceeded"
  | fileTooLarge => "file too large"
  | resourceBusy => "resource busy"
  | executableFileBusy => "executable file busy"
  | deadlock => "deadlock"
  | crossesDevices => "cross-device link or rename"
  | tooManyLinks => "too many links"
  | invalidFilename => "invalid filename"
  | argumentListTooLong => "argument list too long"
  | interrupted => "operation interrupted"
  | unsupported => "unsupported"
  | unexpectedEof => "unexpected end of file"
  | outOfMemory => "out of memory"
  | inProgress => "in progress"
  | other => "other error"
  | uncategorized => "uncategorized error"

end ErrorKind

/-- What the operating system refuses on a disk. -/
inductive DiskFault where
  | noEntry
  | notDirectory
  | isDirectory
  | linkLoop
  | nameTooLong
  | nulInPath
  deriving DecidableEq, Repr

namespace DiskFault

def kind : DiskFault → ErrorKind
  | noEntry => .notFound
  | notDirectory => .notADirectory
  | isDirectory => .isADirectory
  | linkLoop => .filesystemLoop
  | nameTooLong => .invalidFilename
  | nulInPath => .invalidInput

/-- The wording of a fault, with the operating system's number if the fault is its own. -/
def message : DiskFault → String
  | noEntry => "No such file or directory (os error 2)"
  | notDirectory => "Not a directory (os error 20)"
  | isDirectory => "Is a directory (os error 21)"
  | linkLoop => "Too many levels of symbolic links (os error 40)"
  | nameTooLong => "File name too long (os error 36)"
  | nulInPath => "file name contained an unexpected NUL byte"

end DiskFault

/-- A cause in words, with the causes below it from the outermost to the root. -/
structure Cause where
  message : String
  below : List String := []
  deriving DecidableEq, Repr

namespace Cause

/-- A cause placed under a new outermost wording. -/
def context (c : Cause) (message : String) : Cause := ⟨message, c.message :: c.below⟩

def chain (c : Cause) : List String := c.message :: c.below

end Cause

mutual

/-- An input/output error: a bare kind, a kind with its own wording, a disk fault, or a drive error
in its place. -/
inductive IoError where
  | plain (kind : ErrorKind)
  | worded (kind : ErrorKind) (message : String)
  | disk (fault : DiskFault)
  | wrapped (kind : ErrorKind) (cause : DriveError)

inductive DriveError where
  /-- The walk could not start. -/
  | discovery (path : Path) (source : IoError)
  /-- No record lives at the path. -/
  | notFound (path : Path)
  /-- The content of the file is not a document. -/
  | parse (path : Path) (source : Cause)
  /-- The document could not be indexed. -/
  | index (path : Path) (source : Cause)
  /-- A read before the start of the file. -/
  | invalidCursor (path : Path) (offset : Int64)
  | io (source : IoError)
  | other (source : Cause)

end

/-! ## Kinds and conversion -/

def IoError.kind : IoError → ErrorKind
  | plain k => k
  | worded k _ => k
  | disk f => f.kind
  | wrapped k _ => k

namespace DriveError

/-- The kind of input/output error that a drive error amounts to. -/
def kind : DriveError → ErrorKind
  | notFound _ => .notFound
  | invalidCursor .. => .invalidInput
  | parse .. => .invalidData
  | index .. => .invalidData
  | io e => e.kind
  | discovery _ e => e.kind
  | other _ => .other

/-- Whether something that was asked for is not there. -/
def isNotFound : DriveError → Bool
  | notFound _ => true
  | io e => e.kind == .notFound
  | discovery _ e => e.kind == .notFound
  | _ => false

/-- The error as an input/output error: an inner one is given back, any other is wrapped whole. -/
def toIo : DriveError → IoError
  | io e => e
  | e => .wrapped e.kind e

end DriveError

/-! ## Wording -/

mutual

def IoError.message : IoError → String
  | .plain k => k.description
  | .worded _ m => m
  | .disk f => f.message
  | .wrapped _ e => e.message

/-- The wording of a drive error, with its outermost cause. -/
def DriveError.message : DriveError → String
  | .discovery p e => "Discovery error at " ++ p.display ++ ": " ++ e.message
  | .notFound p => "open " ++ p.display ++ ": file does not exist"
  | .parse p c => "Parse error in " ++ p.display ++ ": " ++ c.message
  | .index p c => "Index error in " ++ p.display ++ ": " ++ c.message
  | .invalidCursor p offset =>
    "read " ++ p.display ++ ": invalid cursor offset " ++ toString offset.toInt
  | .io e => "IO error: " ++ e.message
  | .other c => "Other error: " ++ c.message

end

mutual

/-- The wordings of the causes below an input/output error. A drive error in its place has already
given the wording, so only the causes of that error follow. -/
def IoError.chain : IoError → List String
  | .wrapped _ e => e.chain
  | _ => []

/-- The wordings of the causes of a drive error, the outermost first. -/
def DriveError.chain : DriveError → List String
  | .discovery _ e => e.message :: e.chain
  | .parse _ c => c.chain
  | .index _ c => c.chain
  | .io e => e.message :: e.chain
  | .other c => c.chain
  | .notFound _ => []
  | .invalidCursor .. => []

end

/-- The wording of the innermost cause, or of the error itself if it has none. -/
def DriveError.rootCause (e : DriveError) : String := e.chain.getLastD e.message

/-! ## Failures during discovery -/

/-- The step of acquiring a file that failed. -/
inductive AcquireStep where
  | opening
  | stating
  | reading
  deriving DecidableEq, Repr

def AcquireStep.name : AcquireStep → String
  | .opening => "open"
  | .stating => "stat"
  | .reading => "read"

/-- One file could not be opened, described or read. -/
structure AcquisitionError where
  step : AcquireStep
  path : Path
  kind : ErrorKind
  message : String
  deriving DecidableEq, Repr

namespace AcquisitionError

/-- The failure of a step as an input/output error tells it. -/
def ofIo (step : AcquireStep) (path : Path) (e : IoError) : AcquisitionError :=
  ⟨step, path, e.kind, e.message⟩

def display (e : AcquisitionError) : String :=
  "cannot " ++ e.step.name ++ " " ++ e.path.display ++ ": " ++ e.message

end AcquisitionError

/-- A problem met during discovery that did not end it. -/
inductive DiscoveryError where
  | walk (path : Path) (kind : ErrorKind) (message : String)
  | acquisition (cause : AcquisitionError)
  deriving DecidableEq, Repr

namespace DiscoveryError

def path : DiscoveryError → Path
  | walk p _ _ => p
  | acquisition e => e.path

def display : DiscoveryError → String
  | walk p _ m => "cannot walk " ++ p.display ++ ": " ++ m
  | acquisition e => e.display

end DiscoveryError

end DocDrive
