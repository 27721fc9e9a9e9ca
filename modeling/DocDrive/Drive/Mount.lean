import DocDrive.Drive.Basic
import DocDrive.FileTree.Disk
import DocDrive.Transcript

/-!
# Mounts

A mount is one drive made of several. The first source to claim a path keeps it; later claims to the
path are dropped and told in the transcript. Records are shared with the sources, not copied.

* `mount` merges the sources for a working directory that is known.
* `mountFor` is `VirtualFileSystem.from_sources`: it merges them for a process, which may have lost
  its working directory and then has no place for a relative root.
-/

namespace DocDrive

/-- Entries joined by those of a source whose paths are not taken, and the paths that were. -/
def Entries.join (taken : Entries) : Entries → Entries × List Path
  | [] => (taken, [])
  | (p, r) :: rest =>
    if taken.has p then
      let (all, dropped) := Entries.join taken rest
      (all, p :: dropped)
    else Entries.join (taken ++ [(p, r)]) rest

/-- Entries joined by those of several sources in order, and the paths that were dropped. -/
def Entries.joinAll (taken : Entries) : List Entries → Entries × List Path
  | [] => (taken, [])
  | source :: rest =>
    let (taken, dropped) := taken.join source
    let (all, later) := Entries.joinAll taken rest
    (all, dropped ++ later)

/-- A drive made of several, and the claims that it dropped. -/
structure Mount extends Drive where
  /-- Paths of dropped claims, source by source. -/
  dropped : List Path

/-- The sources as one drive. Relative paths start at `root`, which is relative to `cwd` itself. -/
def mount (cwd root : Path) (sources : List Drive) : Mount :=
  let (entries, dropped) := Entries.joinAll [] (sources.map Drive.entries)
  { root := Path.absolutize cwd root
    entries
    errors := sources.flatMap Drive.errors
    dropped }

/-- The sources as one drive, or the reason why the root cannot be placed. -/
def mountFor (host : Host) (root : Path) (sources : List Drive) : Except DriveError Mount :=
  match host.refusal? root with
  | some e => .error (.io e)
  | none => .ok (mount host.cwd root sources)

/-- What the transcript tells about a mount: the claims that it drops, as it drops them. -/
def Mount.transcript (m : Mount) : List Event := m.dropped.map .duplicateDropped

end DocDrive
