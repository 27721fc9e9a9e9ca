import DocDrive.Number.Shortest
import DocDrive.Yaml.Written.Scalar

/-!
# Writing nodes

`Yaml.write?` writes a node as a YAML document in block style, two spaces for each level. Sequences
inside a mapping stand at the indentation of their keys, and empty collections are `[]` and `{}`.

A mapping of one entry looks like a tag while it is being written, so a node cannot be written if
such an entry has a key that looks like one too (`isWritable`).
-/

namespace DocDrive.Yaml

/-! ## Writable nodes -/

/-- A node that is announced by an entry: a tag on its content, or a mapping of one entry. -/
def isEntryLike : Node → Bool
  | .tagged .. => true
  | .mapping [_] => true
  | _ => false

mutual

/-- Every mapping of one entry has a key of another kind, unless a tag stands before it, and no tag
stands on a tag. -/
def isWritable (underTag : Bool) : Node → Bool
  | .tagged _ content => !underTag && isWritable true content
  | .sequence items => areWritable items
  | .mapping [(k, v)] => (underTag || !isEntryLike k) && isWritable false k && isWritable false v
  | .mapping entries => haveWritable entries
  | _ => true

def areWritable : List Node → Bool
  | [] => true
  | n :: rest => isWritable false n && areWritable rest

def haveWritable : List (Node × Node) → Bool
  | [] => true
  | (k, v) :: rest => isWritable false k && isWritable false v && haveWritable rest

end

/-! ## Tags and simple keys -/

def fullTag (name : String) : List Char :=
  match name.toList with
  | '!' :: rest => '!' :: rest
  | cs => '!' :: cs

/-- Characters that a written tag may hold. -/
def staysInTag (c : Char) : Bool := isWordChar c || ";/?:@&=+$,.~*'()[]".toList.contains c

/-- Text in a tag, other characters by their bytes. -/
def tagText (cs : List Char) : List Char :=
  cs.flatMap fun c =>
    if staysInTag c then [c]
    else (Utf8.encode [c]).flatMap fun b => '%' :: hexDigits b.toNat 2

def writeTag (name : String) : List Char :=
  match fullTag name with
  | [c] => "!<".toList ++ tagText [c] ++ ['>']
  | cs => '!' :: tagText (cs.drop 1)

/-- The longest key, in bytes, that stands before its colon without a mark. -/
def maxSimpleKey : Nat := 128

/-- The bytes that a scalar or an empty collection counts as a key; none if it is no simple key. -/
def keySize? : Node → Option Nat
  | .null => some 4
  | .bool b => some (if b then 4 else 5)
  | .int n => some (toString n).utf8ByteSize
  | .float x => some x.text.length
  | .string s => if isMultiline s.toList then none else some s.utf8ByteSize
  | .sequence [] => some 0
  | .mapping [] => some 0
  | .tagged name n => (keySize? n).map (· + (Utf8.encode (fullTag name)).length)
  | _ => none

/-- A key that stands on one line with its value. -/
def isSimpleKey (n : Node) : Bool :=
  match keySize? n with
  | some size => size ≤ maxSimpleKey
  | none => false

/-! ## Layout -/

inductive Place where
  /-- At the start of a line or of the text. -/
  | start
  | item
  /-- After a question mark, or after the colon that answers it. -/
  | explicitEntry
  | value
  deriving DecidableEq, Repr

/-- What stands between a node and the mark before it. -/
def Place.gap : Place → List Char
  | .start => []
  | _ => [' ']

def newLine (indent : Nat) : List Char := '\n' :: List.replicate indent ' '

/-- One level deeper; the outermost collection is not indented. -/
def deeper : Option Nat → Nat
  | none => 0
  | some n => n + 2

/-- The indentation of the further lines of a scalar. -/
def scalarIndent : Option Nat → Nat
  | none => 2
  | some n => n + 2

/-- The start of a line after some text, which may have ended its line itself. -/
def nextLineAfter (text : List Char) (indent : Nat) : List Char :=
  match text.getLast? with
  | some c => if isBreak c then text ++ List.replicate indent ' ' else text ++ newLine indent
  | none => newLine indent

/-- What stands before the first entry of a block collection: it starts on the line of its mark
unless a tag or a key stands there. -/
def blockStart (place : Place) (tagged : Bool) (indent : Nat) : List Char :=
  if tagged || place == .value then newLine indent else place.gap

def sequenceIndent (place : Place) (tagged : Bool) (around : Option Nat) : Nat :=
  if place == .value || (place == .explicitEntry && tagged) then around.getD 0 else deeper around

mutual

/-- A node with the gap before it. `around` is the indentation of the collection it belongs to. -/
def layout (place : Place) (tagged : Bool) (around : Option Nat) : Node → List Char
  | .null => place.gap ++ "null".toList
  | .bool b => place.gap ++ (if b then "true" else "false").toList
  | .int n => place.gap ++ (toString n).toList
  | .float x => place.gap ++ x.text
  | .string s => place.gap ++ writeText (scalarIndent around) s.toList
  | .sequence [] => place.gap ++ "[]".toList
  | .mapping [] => place.gap ++ "\x7b\x7d".toList
  | .sequence items =>
    let indent := sequenceIndent place tagged around
    blockStart place tagged indent ++ layoutItems indent items
  | .mapping entries =>
    let indent := deeper around
    blockStart place tagged indent ++ layoutEntries indent entries
  | .tagged name content =>
    let next := match place with
      | .start => .item
      | p => p
    place.gap ++ writeTag name ++ layout next true around content

def layoutItems (indent : Nat) : List Node → List Char
  | [] => []
  | n :: rest =>
    let text := '-' :: layout .item false (some indent) n
    match rest with
    | [] => text
    | rest => nextLineAfter text indent ++ layoutItems indent rest

def layoutEntries (indent : Nat) : List (Node × Node) → List Char
  | [] => []
  | (k, v) :: rest =>
    let text :=
      if isSimpleKey k then
        layout .start false (some indent) k ++ ':' :: layout .value false (some indent) v
      else
        nextLineAfter ('?' :: layout .explicitEntry false (some indent) k) indent ++
          ':' :: layout .explicitEntry false (some indent) v
    match rest with
    | [] => text
    | rest => nextLineAfter text indent ++ layoutEntries indent rest

end

/-- A node as a YAML document without its last line break, if it can be written. -/
def write? (n : Node) : Option (List Char) :=
  if isWritable false n then some (layout .start false none n) else none

end DocDrive.Yaml
