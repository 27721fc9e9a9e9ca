import DocDrive.Discovery
import DocDrive.Report

/-!
# The command line

One plain argument names the root. `--filter` takes the argument after it, whatever it is, as a path
to admit; `--json` asks for JSON; a help flag asks for the usage.

* `readArguments` is `parse_args`: arguments are read from the left, and the first one that decides
  the answer does so.
* `run` is `main`: it discovers the root, indexes every file and prints the report.
-/

namespace DocDrive.CommandLine

/-! ## Arguments -/

structure Options where
  root : Path
  filters : List String := []
  json : Bool := false
  deriving DecidableEq, Repr

/-- Why a command line cannot be read. -/
inductive ArgumentError where
  | missingFilter
  | unexpected (argument : String)
  deriving DecidableEq, Repr

def ArgumentError.message : ArgumentError → String
  | missingFilter => "--filter needs a relative path"
  | unexpected argument => "unexpected argument: " ++ argument

/-- What the arguments so far have said. -/
structure Read where
  root : Option String := none
  filters : List String := []
  json : Bool := false
  deriving DecidableEq, Repr

/-- The options that have been read, if there is a root; otherwise the usage is asked for. -/
def Read.options? (r : Read) : Option Options :=
  r.root.map fun root => ⟨.ofString root, r.filters, r.json⟩

/-- The rest of the arguments after some have been read. No options ask for the usage. -/
def readMore (r : Read) : List String → Except ArgumentError (Option Options)
  | [] => .ok r.options?
  | "--json" :: rest => readMore { r with json := true } rest
  | ["--filter"] => .error .missingFilter
  | "--filter" :: f :: rest => readMore { r with filters := r.filters ++ [f] } rest
  | argument :: rest =>
    if argument = "-h" ∨ argument = "--help" then .ok none
    else if r.root.isSome then .error (.unexpected argument)
    else readMore { r with root := some argument } rest

/-- The options that arguments give; none if the usage is asked for. -/
def readArguments (arguments : List String) : Except ArgumentError (Option Options) :=
  readMore {} arguments

/-! ## Answers -/

/-- What a run leaves behind. -/
structure Output where
  status : Nat := 0
  stdout : String := ""
  stderr : String := ""
  deriving DecidableEq, Repr

def usage (program : String) : String :=
  "Usage: " ++ program ++ " <root> [--filter <relative-path>]... [--json]\n"

/-- A cause with its number, if there are several; further lines of it are indented alike. -/
def indentCause (number : Option Nat) (cause : String) : String :=
  let (first, further) := match number with
    | none => ("    ", "    ")
    | some n =>
      let digits := toString n
      (String.ofList (List.replicate (5 - digits.length) ' ') ++ digits ++ ": ", "       ")
  first ++ String.ofList (cause.toList.flatMap fun c =>
    if c = '\n' then c :: further.toList else [c])

/-- The causes of a fatal error, the outermost first. -/
def causes (chain : List String) : String :=
  let lines := match chain with
    | [cause] => [indentCause none cause]
    | chain => chain.mapIdx fun i cause => indentCause (some i) cause
  if chain.isEmpty then "" else "\n\nCaused by:" ++ String.join (lines.map ("\n" ++ ·))

/-- The end of a run that could not be finished. -/
def fatal (message : String) (chain : List String := []) : Output :=
  { status := 1, stderr := "Error: " ++ message ++ causes chain ++ "\n" }

def present (json : Bool) (report : Report) : Output :=
  if json then
    match report.json? with
    | some value => { stdout := value.pretty 0 ++ "\n" }
    | none => fatal "path contains invalid UTF-8 characters"
  else { stdout := String.join (report.lines.map (· ++ "\n")) }

/-- What is discovered for some options. An empty list of filters is no list. -/
def Options.discovery (o : Options) : DiscoveryConfig :=
  { base := o.root, filters := if o.filters.isEmpty then none else some o.filters }

def execute (host : Host) (o : Options) : Output :=
  match discover host 0 o.discovery with
  | .error e => fatal e.message e.chain
  | .ok d =>
    let (report, _) := d.toDrive.indexAll Indexer.references {} {}
    present o.json (.ofIndexing d.toDrive report)

def run (host : Host) (program : String) (arguments : List String) : Output :=
  match readArguments arguments with
  | .error e => fatal e.message
  | .ok none => { stderr := usage program }
  | .ok (some options) => execute host options

end DocDrive.CommandLine
