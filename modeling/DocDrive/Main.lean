import DocDrive.CommandLine

/-!
# The program

Takes a snapshot of the directory that the command line names, answers the command line on it, and
prints the answer.
-/

namespace DocDrive.Snapshot

/-- A link target that is never part of a snapshot. -/
def nowhere : Path := .ofString "/dev/null/nowhere"

/-- A directory entry as it is on the disk, `depth` levels deep. Of a link it is kept what it leads
to: a file, some directory, or nothing. -/
partial def entry (depth : Option Nat) (e : IO.FS.DirEntry) : IO DiskEntry := do
  let path := e.path
  let info ← path.symlinkMetadata
  if info.type == .dir then
    if depth == some 0 then return .directory []
    let mut found := DiskEntry.directory []
    for child in ← path.readDir do
      found := .put (← entry (depth.map (· - 1)) child) [Utf8.ofString child.fileName] found
    return found
  else if ← path.isDir then return .link (.ofString ".")
  else if ← path.pathExists then return .file (← IO.FS.readBinFile path).toList
  else return .link nowhere

/-- The disk with what lies at a directory and, where that is no directory, with the file in the
way. -/
def load (scope : Scope) : IO Disk := do
  let depth := if scope.only.isSome then some 0 else none
  let mut disk : Disk := {}
  for path in scope.directory.ancestors ++ [scope.directory] do
    try
      let real ← IO.FS.realPath path.display
      if ← real.isDir then
        if path = scope.directory then
          disk := disk.add path (.directory [])
          for child in ← real.readDir do
            disk := disk.add (path.join (.ofString child.fileName)) (← entry depth child)
      else if ← real.pathExists then disk := disk.add path (.file [])
    catch _ => pure ()
  return disk

end DocDrive.Snapshot

open DocDrive CommandLine in
/-- Answers the command line on the disk as it is now. -/
def main (arguments : List String) : IO UInt32 := do
  let (cwd, lost) ← try pure (Path.ofString (← IO.currentDir).toString, none)
    catch _ => pure (Path.empty, some (IoError.disk .noEntry))
  let disk ← match readArguments arguments with
    | .ok (some options) => Snapshot.load (options.discovery.scope cwd)
    | _ => pure {}
  let program := (← IO.appPath).fileName.getD "docdrive"
  let output := run { cwd, disk, lost } program arguments
  (← IO.getStdout).putStr output.stdout
  (← IO.getStderr).putStr output.stderr
  return output.status.toUInt32
