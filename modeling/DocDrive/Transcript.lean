import DocDrive.Admission
import DocDrive.Error

/-!
# The transcript of a discovery

Discovery reports what it does as events (`DiscoveryEvent`), in order. `Event.logLine?` is
`TracingObserver.observe`, the line that a log shows for an event, and `Elapsed.text` the time that
the last line carries.
-/

namespace DocDrive

/-! ## Time spans -/

/-- The time a pass took, if it was measured. -/
inductive Elapsed where
  | unmeasured
  | nanoseconds (n : Nat)
  deriving DecidableEq, Repr

namespace Elapsed

/-- A count of nanoseconds shown in a unit of `scale` of them, with as many decimals as it needs. -/
def inUnit (n scale places : Nat) (unit : String) : String :=
  let whole := toString (n / scale)
  let digits := (toString (n % scale)).toList
  let padded := List.replicate (places - digits.length) '0' ++ digits
  let kept := (padded.reverse.dropWhile (· == '0')).reverse
  if kept.isEmpty then whole ++ unit
  else whole ++ "." ++ String.ofList kept ++ unit

/-- The span in the largest unit with a nonzero whole part; `*` if it was not measured. -/
def text : Elapsed → String
  | unmeasured => "*"
  | nanoseconds n =>
    if n ≥ 1000000000 then inUnit n 1000000000 9 "s"
    else if n ≥ 1000000 then inUnit n 1000000 6 "ms"
    else if n ≥ 1000 then inUnit n 1000 3 "µs"
    else toString n ++ "ns"

end Elapsed

/-! ## Events -/

/-- What a discovery or a mount did. -/
inductive Event where
  | collected (path : Path) (size : Nat)
  | skipped (path : Path) (reason : Rejection)
  | acquisitionFailed (cause : AcquisitionError)
  | walkFailed (path : Path) (message : String)
  | duplicateDropped (path : Path)
  | finished (root : Path) (files errors : Nat) (elapsed : Elapsed)
  deriving DecidableEq, Repr

inductive Level where
  | debug
  | info
  | warn
  | error
  deriving DecidableEq, Repr

def Level.name : Level → String
  | debug => "DEBUG"
  | info => "INFO"
  | warn => "WARN"
  | error => "ERROR"

/-- The log line of an event. Files turned away for being hidden or unlisted leave none. -/
def Event.logLine? : Event → Option (Level × String)
  | collected p size =>
    some (.debug, "[Librarian] Collected " ++ p.display ++ " (" ++ toString size ++ " bytes)")
  | skipped p .unsupported =>
    some (.debug, "[Librarian] Skipping non JSON/YAML file: " ++ p.display)
  | skipped _ _ => none
  | acquisitionFailed e => some (.error, "[Librarian] " ++ e.display)
  | walkFailed p m => some (.warn, "[Librarian] Walk error at " ++ p.display ++ ": " ++ m)
  | duplicateDropped p =>
    some (.warn, "[HollowDrive] " ++ p.display ++
      " already mounted by another source, dropping duplicate")
  | finished root files errors elapsed =>
    some (.info, "[Librarian] Catalogued " ++ toString files ++ " files under " ++ root.display ++
      " in " ++ elapsed.text ++ " (" ++ toString errors ++ " errors)")

def logLines (events : List Event) : List (Level × String) := events.filterMap Event.logLine?

end DocDrive
