import DocDrive.Text.Utf8

/-!
# Tokens of YAML

The words that a YAML text is cut into. Indentation has become explicit: block collections start
and end with tokens of their own.
-/

namespace DocDrive.Yaml

/-- How a scalar is written: only plain ones may mean something else than text. -/
inductive ScalarStyle where
  | plain
  | quoted
  deriving DecidableEq, Repr

inductive Token where
  | streamStart
  | streamEnd
  | versionDirective (major minor : Nat)
  | tagDirective (handle : List Char) (start : Bytes)
  | documentStart
  | documentEnd
  | blockSequenceStart
  | blockMappingStart
  | blockEnd
  | flowSequenceStart
  | flowSequenceEnd
  | flowMappingStart
  | flowMappingEnd
  | blockEntry
  | flowEntry
  | key
  | value
  | alias (name : List Char)
  | anchor (name : List Char)
  | tag (handle : List Char) (suffix : Bytes)
  | scalar (text : List Char) (style : ScalarStyle)
  deriving DecidableEq, Repr

end DocDrive.Yaml
