import DocDrive.Path

/-!
# Admission of walked files

A walked path enters a drive when it is not hidden, stands on the allow-list (if there is one) and
names a YAML or JSON file by its extension.

* `FileClass.ofExtension` and `FileClass.classify` are `FileExtension.from_extension` and
  `FileExtension.classify`.
* `Path.isHidden` and `allowed` are `Bouncer.is_hidden` and `Bouncer.is_allowed`; the filters that a
  `Bouncer` holds are an argument.
* `admission` is `Bouncer.admit`. It names the first test that fails.
-/

namespace DocDrive

/-- What a file holds, judged by its extension. -/
inductive FileClass where
  | yaml
  | json
  | unsupported
  deriving DecidableEq, Repr

namespace FileClass

def name : FileClass → String
  | yaml => "Yaml"
  | json => "Json"
  | unsupported => "Unsupported"

/-- ASCII letters in lower case. No other character has a lower-case form among the letters of the
known extensions, so this is all the folding that matters to them. -/
def lowerAscii (text : List Char) : List Char := text.map Char.toLower

/-- The class that an extension stands for, in any case. -/
def ofExtension (ext : List Char) : FileClass :=
  let ext := String.ofList (lowerAscii ext)
  if ext = "yaml" ∨ ext = "yml" then yaml
  else if ext = "json" then json
  else unsupported

/-- The class of a path; an extension that is not text is unsupported. -/
def classify (p : Path) : FileClass :=
  match p.extension with
  | none => unsupported
  | some ext =>
    match Utf8.decode? ext with
    | none => unsupported
    | some text => ofExtension text

def isSupported (c : FileClass) : Bool := c != unsupported

end FileClass

/-! ## The door -/

inductive Rejection where
  | hidden
  | filtered
  | unsupported
  deriving DecidableEq, Repr

def Rejection.name : Rejection → String
  | hidden => "Hidden"
  | filtered => "Filtered"
  | unsupported => "Unsupported"

/-- A name that is text and starts with a dot. -/
def Component.isHidden : Component → Bool
  | .normal name =>
    match Utf8.decode? name with
    | some ('.' :: _) => true
    | _ => false
  | _ => false

/-- Any step counts, not only the first. -/
def Path.isHidden (p : Path) : Bool := p.components.any Component.isHidden

/-- The allow-list: absent or empty admits every path, otherwise the shown path is listed. -/
def allowed (filters : Option (List String)) (p : Path) : Bool :=
  match filters with
  | none => true
  | some [] => true
  | some fs => fs.contains p.display

/-- The class of an admitted path, or the first reason against it. -/
def admission (filters : Option (List String)) (p : Path) : Except Rejection FileClass :=
  if p.isHidden then .error .hidden
  else if !allowed filters p then .error .filtered
  else
    match FileClass.classify p with
    | .unsupported => .error .unsupported
    | c => .ok c

end DocDrive
