import DocDrive.Yaml.Lexis.Flow
import DocDrive.Yaml.Token

/-!
# Names, tags and directives

Anchors and aliases are words. A tag is a handle and a suffix; the suffix may spell bytes as `%XX`.
Directives fix the version of the text and what the handles of its tags stand for.
-/

namespace DocDrive.Yaml

/-! ## Anchors and aliases -/

/-- Characters that may follow a name, besides blanks and breaks. -/
def mayFollowName (c : Char) : Bool := "?:,]\x7d%@\x60".toList.contains c

/-- The name after the indicator of an anchor or alias. -/
def name? (s : Source) : Option (List Char × Source) := do
  let (name, s) ← (s.skip 1).takeWhile? isWordChar
  let ends := atSpace s.rest || s.rest.head?.any mayFollowName
  if name.isEmpty || !ends then none else some (name, s)

/-! ## Tags -/

/-- Characters of a tag, besides escapes; a tag in angle brackets may hold flow indicators too. -/
def isTagChar (verbatim : Bool) (c : Char) : Bool :=
  isWordChar c || ";/?:@&=+$.!~*'()".toList.contains c || (verbatim && ",[]".toList.contains c)

def escapedByte? : List Char → Option Nat
  | '%' :: a :: b :: _ => hexValue? [a, b]
  | _ => none

/-- Bytes that continue a character, put before `done`. -/
def continuations : Nat → Bytes → Source → Option (Bytes × Source)
  | 0, done, s => some (done, s)
  | n + 1, done, s =>
    match escapedByte? s.rest with
    | none => none
    | some b => if b / 64 ≠ 2 then none else continuations n (UInt8.ofNat b :: done) (s.skip 3)

/-- The bytes of one character spelled by escapes, put before `done`. -/
def escapedChar? (done : Bytes) (s : Source) : Option (Bytes × Source) :=
  match escapedByte? s.rest with
  | none => none
  | some b =>
    let more :=
      if b < 0x80 then some 0
      else if b / 32 = 6 then some 1
      else if b / 16 = 14 then some 2
      else if b / 8 = 30 then some 3
      else none
    match more with
    | none => none
    | some n => continuations n (UInt8.ofNat b :: done) (s.skip 3)

/-- The characters of a tag from here on, as bytes. `done` are those before, backward. -/
def tagBytes (verbatim : Bool) : Nat → Bytes → Source → Option (Bytes × Source)
  | 0, _, _ => none
  | fuel + 1, done, s =>
    match s.rest with
    | [] => if s.cut then none else some (done.reverse, s)
    | '%' :: _ =>
      match escapedChar? done s with
      | none => none
      | some (done, s) => tagBytes verbatim fuel done s
    | c :: _ =>
      if isTagChar verbatim c then
        tagBytes verbatim fuel ((String.utf8EncodeChar c).reverse ++ done) (s.skip 1)
      else some (done.reverse, s)

/-- What stands before the first NUL. -/
def beforeNul (bytes : Bytes) : Bytes := bytes.takeWhile (· != 0)

/-- The rest of a tag that starts with `head`; it may be empty only after some head. -/
def tagSuffix? (verbatim : Bool) (head : Option (List Char)) (s : Source) :
    Option (Bytes × Source) :=
  let start := (head.getD []).drop 1
  match tagBytes verbatim (s.size + 1) (Utf8.encode start).reverse s with
  | none => none
  | some (bytes, t) =>
    if (head.getD []).isEmpty && t.index == s.index then none else some (beforeNul bytes, t)

/-- A handle: `!`, a word and perhaps another `!`. -/
def handle? (s : Source) : Option (List Char × Source) :=
  match s.rest with
  | '!' :: _ => do
    let (word, s) ← (s.skip 1).takeWhile? isWordChar
    match s.rest with
    | '!' :: _ => some ('!' :: word ++ ['!'], s.skip 1)
    | _ => some ('!' :: word, s)
  | _ => none

def isNamedHandle (handle : List Char) : Bool :=
  handle.length > 1 && handle.getLast? == some '!'

/-- Handle and suffix of a tag, and the position after it. -/
def tagParts? (s : Source) : Option (List Char × Bytes × Source) :=
  match s.rest with
  | '!' :: '<' :: _ =>
    match tagSuffix? true none (s.skip 2) with
    | some (suffix, s) => if s.rest.head? = some '>' then some ([], suffix, s.skip 1) else none
    | none => none
  | _ =>
    match handle? s with
    | none => none
    | some (handle, s) =>
      if isNamedHandle handle then
        (tagSuffix? false none s).map fun p => (handle, p.1, p.2)
      else
        match tagSuffix? false (some handle) s with
        | none => none
        | some ([], s) => some ([], [0x21], s)
        | some (suffix, s) => some (['!'], suffix, s)

/-- A tag, which must be followed by a blank, a break or, inside flow collections, a comma. -/
def tag? (flow : Bool) (s : Source) : Option (Token × Source) :=
  match tagParts? s with
  | none => none
  | some (handle, suffix, s) =>
    let ends := atSpace s.rest || (flow && s.rest.head? == some ',')
    if s.reaches 1 && ends then some (.tag handle suffix, s) else none

/-! ## Directives -/

def maxVersionDigits : Nat := 9

def versionNumber? (s : Source) : Option (Nat × Source) := do
  let (digits, s) ← s.takeWhile? Char.isDigit
  if digits.isEmpty || digits.length > maxVersionDigits then none
  else some (digits.foldl (fun n c => n * 10 + (c.toNat - '0'.toNat)) 0, s)

/-- The version after `%YAML`. -/
def version? (s : Source) : Option (Token × Source) := do
  let (major, s) ← versionNumber? (← s.skipWhile? isBlank)
  if s.rest.head? ≠ some '.' then none
  else
    let (minor, s) ← versionNumber? (s.skip 1)
    some (.versionDirective major minor, s)

/-- The handle and what it stands for after `%TAG`. -/
def tagDirective? (s : Source) : Option (Token × Source) := do
  let (handle, s) ← handle? (← s.skipWhile? isBlank)
  if handle ≠ ['!'] ∧ !isNamedHandle handle then none
  else if !s.rest.head?.any isBlank then none
  else
    let (start, s) ← tagSuffix? true none (← s.skipWhile? isBlank)
    if atSpace s.rest then some (.tagDirective handle start, s) else none

/-- A directive at its `%`, with the end of its line. -/
def directive? (s : Source) : Option (Token × Source) := do
  let (name, s) ← (s.skip 1).takeWhile? isWordChar
  if name.isEmpty || !atSpace s.rest then none
  else
    let (token, s) ←
      if name = "YAML".toList then version? s
      else if name = "TAG".toList then tagDirective? s
      else none
    s.endLine?.map (token, ·)

end DocDrive.Yaml
