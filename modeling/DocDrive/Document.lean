import DocDrive.Admission
import DocDrive.Error
import DocDrive.Json.Reader
import DocDrive.Yaml.Reader

/-!
# Documents

A file is read by the parser of its class, or by one that the caller picks. Blank content is
reported before any parser looks at it.

* `hasNoData` is what `ensure_content` refuses; `isEmptyStream` is `is_empty_yaml_stream`, for which
  comments do not count either.
* `Parser.yaml` and `Parser.json` are `YamlParser.parse` and `JsonParser.parse`; `Parser.ofClass` is
  `parser_for`.
-/

namespace DocDrive

/-! ## Blank content -/

/-- The blanks of ASCII: space, tab, line feed, form feed and carriage return. -/
def isAsciiBlank (b : UInt8) : Bool :=
  b == 0x20 || b == 0x09 || b == 0x0A || b == 0x0C || b == 0x0D

def hasNoData (bytes : Bytes) : Bool := bytes.all isAsciiBlank

/-- The lines of a byte string, ended by line feeds. -/
def byteLines : Bytes → List Bytes
  | [] => [[]]
  | b :: rest =>
    if b = 0x0A then [] :: byteLines rest
    else
      match byteLines rest with
      | [] => [[b]]
      | line :: lines => (b :: line) :: lines

/-- A line of blanks, or a comment after blanks. -/
def isIdleLine (line : Bytes) : Bool :=
  match line.dropWhile isAsciiBlank with
  | [] => true
  | b :: _ => b == 0x23

/-- A YAML stream without any document. -/
def isEmptyStream (bytes : Bytes) : Bool := (byteLines bytes).all isIdleLine

/-! ## Parsers -/

/-- Reads the bytes of a file into a document. -/
abbrev Parser := Bytes → Except Cause Node

namespace Parser

/-- There is nothing to read. -/
def noData : Cause := ⟨"no data to parse", []⟩

/-- What is wrong inside a malformed text is not told. -/
def hiddenDetail : String := "*"

/-- The text breaks the rules of its format. -/
def malformed (format : String) : Cause :=
  Cause.context ⟨hiddenDetail, []⟩ ("malformed " ++ format ++ " document")

/-- The first document of a YAML stream. -/
def yaml : Parser := fun bytes =>
  if isEmptyStream bytes then .error noData
  else
    match Yaml.read? bytes with
    | some node => .ok node
    | none => .error (malformed "YAML")

def json : Parser := fun bytes =>
  if hasNoData bytes then .error noData
  else
    match Json.read? bytes with
    | some node => .ok node
    | none => .error (malformed "JSON")

def ofClass : FileClass → Parser
  | .json => json
  | .yaml => yaml
  | .unsupported => yaml

/-- A parser that refuses every file. -/
def failing (message : String) : Parser := fun _ => .error ⟨message, []⟩

/-- A parser that reads the same node from every file. -/
def constant (node : Node) : Parser := fun _ => .ok node

end Parser

end DocDrive
