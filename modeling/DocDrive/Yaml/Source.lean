import DocDrive.Text.Utf8

/-!
# The character stream of a YAML text

A YAML text is UTF-8 in a restricted range of characters. `Source` is a position in it: what is
left, and where that is. Reading never goes back, so every reader is a function from a source to a
later one.

* `Source.ofBytes` decodes a text. It is taken in pieces of `pieceSize` bytes, and a piece with an
  unreadable character cannot be read at all: the stream is then `cut` before it.
* `Source.reaches` says whether a reader may look so many characters ahead. No reader may look into
  a cut, even if it would not need what it sees there.
* `Source.skip`, `Source.skipLine` and `Source.takeWhile?` move forward and keep place, line and
  column.
-/

namespace DocDrive.Yaml

/-! ## Characters -/

/-- Next line, a line break of YAML. -/
def nextLine : Char := '\u0085'

/-- Line separator, a line break that keeps its form. -/
def lineSeparator : Char := '\u2028'

/-- Paragraph separator, a line break that keeps its form. -/
def paragraphSeparator : Char := '\u2029'

def byteOrderMark : Char := '\uFEFF'

/-- Characters that a YAML text may hold. -/
def isReadable (c : Char) : Bool :=
  let n := c.toNat
  n == 0x09 || n == 0x0A || n == 0x0D || (0x20 ≤ n && n ≤ 0x7E) || n == 0x85 ||
    (0xA0 ≤ n && n ≤ 0xD7FF) || (0xE000 ≤ n && n ≤ 0xFFFD) || 0x10000 ≤ n

def isBreak (c : Char) : Bool :=
  c == '\n' || c == '\r' || c == nextLine || c == lineSeparator || c == paragraphSeparator

def isBlank (c : Char) : Bool := c == ' ' || c == '\t'

/-- Letters, digits, `_` and `-`: what names of anchors and handles are made of. -/
def isWordChar (c : Char) : Bool := c.isAlphanum || c == '_' || c == '-'

/-- The text begins with a blank or a break, or is at its end. -/
def atSpace : List Char → Bool
  | [] => true
  | c :: _ => isBlank c || isBreak c

/-- The text begins with a break, or is at its end. -/
def atBreak : List Char → Bool
  | [] => true
  | c :: _ => isBreak c

/-! ## Decoding -/

def byteCount (cs : List Char) : Nat := cs.foldl (fun n c => n + c.utf8Size) 0

/-- The bytes of a character with the first byte `b`. A byte that starts none stands alone. -/
def sequenceLength (b : UInt8) : Nat :=
  if b < 0xC0 then 1 else if b < 0xE0 then 2 else if b < 0xF0 then 3 else if b < 0xF8 then 4 else 1

/-- A character that a YAML text may hold, from all its bytes. -/
def readChar? (bytes : Bytes) : Option Char :=
  match Utf8.decode? bytes with
  | some [c] => if isReadable c then some c else none
  | _ => none

def pieceSize : Nat := 16384

/-- Characters up to the last piece that can be read whole, and whether all could be. `kept` are the
characters of finished pieces and `current` those of the piece being read, both backward. A
character that does not fit into a piece starts the next one, and one that the text does not
complete ends the last. -/
def readable (kept current : List Char) (offset limit : Nat) (bytes : Bytes) : List Char × Bool :=
  match bytes with
  | [] => ((current ++ kept).reverse, true)
  | b :: rest =>
    let more := sequenceLength b - 1
    let sequence := b :: rest.take more
    if sequence.length ≤ more then ((current ++ kept).reverse, false)
    else
      let after := offset + sequence.length
      let (kept, current, limit) :=
        if after > limit then (current ++ kept, [], offset + pieceSize) else (kept, current, limit)
      match readChar? sequence with
      | none => (kept.reverse, false)
      | some c => readable kept (c :: current) after limit (rest.drop more)
termination_by bytes.length
decreasing_by simp only [List.length_drop, List.length_cons]; omega

/-! ## Positions -/

/-- A position in a character stream. -/
structure Source where
  rest : List Char
  /-- Bytes before the position. -/
  index : Nat
  line : Nat
  column : Nat
  /-- What is left ends in unreadable input. -/
  cut : Bool
  /-- Characters of the whole stream. No loop over it takes more steps. -/
  size : Nat
  deriving Repr

namespace Source

def ofBytes (bytes : Bytes) : Source :=
  let (chars, whole) := readable [] [] 0 pieceSize bytes
  ⟨chars, 0, 0, 0, !whole, chars.length⟩

/-- The next `n` characters can be read, as far as the text has so many. -/
def reaches (s : Source) (n : Nat) : Bool := !s.cut || (s.rest.take n).length == n

/-- The position `n` characters on, none of them a break. -/
def skip (s : Source) (n : Nat) : Source :=
  { s with
    rest := s.rest.drop n
    index := s.index + byteCount (s.rest.take n)
    column := s.column + n }

/-- The characters of a class at the position, and the position after them. Where they end shows
only in the character after them. -/
def takeWhile? (s : Source) (p : Char → Bool) : Option (List Char × Source) :=
  let taken := s.rest.takeWhile p
  let after := s.skip taken.length
  if after.reaches 1 then some (taken, after) else none

/-- The position after the characters of a class. -/
def skipWhile? (s : Source) (p : Char → Bool) : Option Source := (s.takeWhile? p).map (·.2)

/-- The first position of the line after a break of `n` characters. -/
def skipBreak (s : Source) (n : Nat) : Source :=
  { s with
    rest := s.rest.drop n
    index := s.index + byteCount (s.rest.take n)
    line := s.line + 1
    column := 0 }

/-- A line break as content, and the position after it; nothing elsewhere. -/
def readLine (s : Source) : List Char × Source :=
  match s.rest with
  | '\r' :: '\n' :: _ => (['\n'], s.skipBreak 2)
  | c :: _ =>
    if c == lineSeparator || c == paragraphSeparator then ([c], s.skipBreak 1)
    else if isBreak c then (['\n'], s.skipBreak 1)
    else ([], s)
  | [] => ([], s)

/-- The position after a line break, if there is one here. -/
def skipLine (s : Source) : Source := s.readLine.2

/-- The text here begins with three of `c`, followed by a space, a break or the end. -/
def atMark (s : Source) (c : Char) : Bool :=
  match s.rest with
  | x :: y :: z :: rest => x == c && y == c && z == c && atSpace rest
  | _ => false

/-- A line here begins with a document mark. -/
def atDocumentMark (s : Source) : Bool := s.column == 0 && (s.atMark '-' || s.atMark '.')

/-- The position after a comment, if there is one here. -/
def skipComment? (s : Source) : Option Source :=
  if s.rest.head? = some '#' then s.skipWhile? fun c => !isBreak c else some s

/-- Blanks and a comment up to the end of a line, which must hold nothing else. A break may be one
of two characters. -/
def endLine? (s : Source) : Option Source := do
  let s ← s.skipWhile? isBlank
  let s ← s.skipComment?
  if atBreak s.rest && s.reaches 2 then some s.skipLine else none

end Source

end DocDrive.Yaml
