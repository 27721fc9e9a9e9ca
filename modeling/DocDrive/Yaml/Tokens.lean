import DocDrive.Yaml.Lexis.Block
import DocDrive.Yaml.Lexis.Tag

/-!
# From characters to tokens

`tokens` cuts a whole text into tokens. Two things need more than the character at hand.

* *Indentation.* In block context the columns at which collections started form a stack. A deeper
  column opens a collection, a shallower one closes collections.
* *Implicit keys.* Whether a node is a mapping key shows only at the colon after it. A node that may
  be one is remembered with its place in the token list, and the colon puts the key there. Such a
  node must stand on one line with its colon, at most `maxKeyLength` bytes before it.

A text may be faulty after the part that a reader needs. So the tokens before a fault are given too;
those from the first node on that might still have become a key are not among them.
-/

namespace DocDrive.Yaml

/-! ## State -/

/-- A node that may turn out to be an implicit key. -/
structure PendingKey where
  /-- The node stands where a key of its block mapping must stand. -/
  required : Bool
  /-- The tokens before the node. -/
  place : Nat
  index : Nat
  line : Nat
  column : Nat
  deriving Repr

/-- What is known while a text is cut. -/
structure Lexer where
  source : Source
  /-- The column of the innermost open block collection, `-1` if none is open. -/
  indent : Int
  indents : List Int
  /-- An implicit key may start here. -/
  keyAllowed : Bool
  /-- The candidate outside flow collections. -/
  blockKey : Option PendingKey
  /-- The candidates of the open flow collections, the innermost first. None of them is required. -/
  flowKeys : List (Option PendingKey)
  /-- The tokens so far, the newest first. -/
  tokens : List Token
  count : Nat

namespace Lexer

/-- The distance in bytes at which a colon can still make a key. -/
def maxKeyLength : Nat := 1024

def start (source : Source) : Lexer :=
  ⟨source, -1, [], true, none, [], [.streamStart], 1⟩

def inFlow (x : Lexer) : Bool := !x.flowKeys.isEmpty

def push (x : Lexer) (t : Token) : Lexer := { x with tokens := t :: x.tokens, count := x.count + 1 }

/-- One more token for the character at hand. -/
def pushChar (x : Lexer) (t : Token) : Lexer := { x with source := x.source.skip 1 }.push t

/-- One more token after the first `place` ones. -/
def insert (x : Lexer) (place : Nat) (t : Token) : Lexer :=
  { x with tokens := x.tokens.insertIdx (x.count - place) t, count := x.count + 1 }

/-! ## Implicit keys -/

/-- The text has moved past the reach of a candidate. It will not come back, so a candidate may stay
in its place until it is asked for. -/
def isStale (x : Lexer) (k : PendingKey) : Bool :=
  decide (k.line < x.source.line) || decide (k.index + maxKeyLength < x.source.index)

/-- The candidate outside flow collections is given up when it is out of reach; a required one may
not be. -/
def dropStale? (x : Lexer) : Option Lexer :=
  match x.blockKey with
  | none => some x
  | some k =>
    if !x.isStale k then some x else if k.required then none else some { x with blockKey := none }

/-- The candidate at this level, if it is in reach. -/
def key? (x : Lexer) : Option PendingKey :=
  (x.flowKeys.headD x.blockKey).filter fun k => !x.isStale k

/-- Another candidate at this level, or none. -/
def setKey (x : Lexer) (k : Option PendingKey) : Lexer :=
  match x.flowKeys with
  | [] => { x with blockKey := k }
  | _ :: rest => { x with flowKeys := k :: rest }

/-- The candidate at this level is given up; a required one may not be. -/
def dropKey? (x : Lexer) : Option Lexer :=
  if !x.inFlow && x.blockKey.any (·.required) then none else some (x.setKey none)

/-- The node here becomes the candidate of its level, if keys may start here. -/
def saveKey? (x : Lexer) : Option Lexer :=
  if !x.keyAllowed then some x
  else
    let s := x.source
    let required := !x.inFlow && decide (x.indent = s.column)
    x.dropKey?.map fun x => x.setKey (some ⟨required, x.count, s.index, s.line, s.column⟩)

/-- The tokens before the first node that may still become a key. -/
def settled (x : Lexer) : List Token :=
  let inReach := x.flowKeys.filterMap fun k => k.filter fun k => !x.isStale k
  let size := (x.blockKey.toList ++ inReach).foldl (fun n k => min n k.place) x.count
  (x.tokens.drop (x.count - size)).reverse

/-! ## Indentation -/

/-- A block collection at a column, unless one is open there; its token goes to `place`. -/
def openBlock (x : Lexer) (column place : Nat) (t : Token) : Lexer :=
  if x.inFlow || decide (x.indent ≥ column) then x
  else { x with indents := x.indent :: x.indents, indent := column }.insert place t

/-- Block collections deeper than a column are closed. -/
def closeBlocks (column : Int) : List Int → Lexer → Lexer
  | [], x => x
  | outer :: rest, x =>
    if x.indent > column then
      closeBlocks column rest ({ x with indent := outer, indents := rest }.push .blockEnd)
    else x

/-- Block collections deeper than a column are closed, outside flow collections. -/
def unroll (x : Lexer) (column : Int) : Lexer :=
  if x.inFlow then x else closeBlocks column x.indents x

/-! ## Tokens -/

/-- Blanks, comments and breaks up to the next token. A tab is a blank only where no key may start,
and a byte order mark may stand at the start of a line. -/
def toNextToken? : Nat → Lexer → Option Lexer
  | 0, x => some x
  | fuel + 1, x => do
    let s := x.source
    let s := if s.column = 0 ∧ s.rest.head? = some byteOrderMark then s.skip 1 else s
    let tabs := x.inFlow || !x.keyAllowed
    let s ← s.skipWhile? fun c => c == ' ' || (tabs && c == '\t')
    let s ← s.skipComment?
    if s.rest.head?.any isBreak then
      toNextToken? fuel { x with source := s.skipLine, keyAllowed := x.keyAllowed || !x.inFlow }
    else some { x with source := s }

def streamEnd? (x : Lexer) : Option Lexer :=
  (x.unroll (-1)).dropKey?.map fun x => { x with keyAllowed := false }.push .streamEnd

def directive? (x : Lexer) : Option Lexer :=
  (x.unroll (-1)).dropKey?.bind fun x =>
    (Yaml.directive? x.source).map fun p =>
      { x with keyAllowed := false, source := p.2 }.push p.1

def documentMark? (x : Lexer) (t : Token) : Option Lexer :=
  (x.unroll (-1)).dropKey?.map fun x =>
    { x with keyAllowed := false, source := x.source.skip 3 }.push t

/-- The start of a flow collection, which may itself be a key. -/
def openFlow? (x : Lexer) (t : Token) : Option Lexer :=
  x.saveKey?.map fun x =>
    { x with flowKeys := none :: x.flowKeys, keyAllowed := true }.pushChar t

def closeFlow? (x : Lexer) (t : Token) : Option Lexer :=
  x.dropKey?.map fun x =>
    { x with flowKeys := x.flowKeys.tail, keyAllowed := false }.pushChar t

def flowEntry? (x : Lexer) : Option Lexer :=
  x.dropKey?.map fun x => { x with keyAllowed := true }.pushChar .flowEntry

/-- A block collection may start at the character at hand. -/
def startBlock? (x : Lexer) (t : Token) : Option Lexer :=
  if x.inFlow then some x
  else if x.keyAllowed then some (x.openBlock x.source.column x.count t)
  else none

def blockEntry? (x : Lexer) : Option Lexer :=
  (x.startBlock? .blockSequenceStart).bind fun x => x.dropKey?.map fun x =>
    { x with keyAllowed := true }.pushChar .blockEntry

def explicitKey? (x : Lexer) : Option Lexer :=
  (x.startBlock? .blockMappingStart).bind fun x => x.dropKey?.map fun x =>
    { x with keyAllowed := !x.inFlow }.pushChar .key

/-- A colon: it makes a key of the candidate, or stands after an explicit or empty key. -/
def value? (x : Lexer) : Option Lexer :=
  match x.key? with
  | some k =>
    let x := (x.setKey none).insert k.place .key
    let x := x.openBlock k.column k.place .blockMappingStart
    some ({ x with keyAllowed := false }.pushChar .value)
  | none =>
    (x.startBlock? .blockMappingStart).map fun x =>
      { x with keyAllowed := !x.inFlow }.pushChar .value

/-- A word of a node that may be a key, read by `read`. -/
def nodeWord? (x : Lexer) (read : Source → Option (Token × Source)) : Option Lexer :=
  x.saveKey?.bind fun x =>
    (read x.source).map fun p => { x with keyAllowed := false, source := p.2 }.push p.1

/-- A block scalar, after which a key may start. -/
def blockScalar? (x : Lexer) (literal : Bool) : Option Lexer :=
  x.dropKey?.bind fun x =>
    (blockScalar literal x.indent x.source).map fun p =>
      { x with keyAllowed := true, source := p.2 }.push (.scalar p.1 .quoted)

/-- A plain scalar; after a break at its end a key may start. -/
def plain? (x : Lexer) : Option Lexer :=
  x.saveKey?.bind fun x =>
    (plain x.inFlow (x.indent + 1) x.source).map fun (text, gap, s) =>
      { x with keyAllowed := gap.broken, source := s }.push (.scalar text .plain)

def quotedWord? (single : Bool) (s : Source) : Option (Token × Source) :=
  (quoted single s).map fun p => (.scalar p.1 .quoted, p.2)

/-- Characters with which no plain scalar starts. -/
def indicators : List Char := "-?:,[]\x7b\x7d#&*!|>'\"%@\x60".toList

/-- A plain scalar starts with `c`, followed by `rest`. -/
def startsPlain (flow : Bool) (c : Char) (rest : List Char) : Bool :=
  !(isBlank c || indicators.contains c) || (c == '-' && !rest.head?.any isBlank) ||
    (!flow && (c == '?' || c == ':') && !atSpace rest)

/-- The token at the position, where no blank stands. -/
def nextToken? (x : Lexer) : Option Lexer :=
  let s := x.source
  let flow := x.inFlow
  match s.rest with
  | [] => x.streamEnd?
  | c :: rest =>
    if s.column = 0 ∧ c = '%' then x.directive?
    else if s.column = 0 ∧ s.atMark '-' then x.documentMark? .documentStart
    else if s.column = 0 ∧ s.atMark '.' then x.documentMark? .documentEnd
    else if c = '[' then x.openFlow? .flowSequenceStart
    else if c = '\x7b' then x.openFlow? .flowMappingStart
    else if c = ']' then x.closeFlow? .flowSequenceEnd
    else if c = '\x7d' then x.closeFlow? .flowMappingEnd
    else if c = ',' then x.flowEntry?
    else if c = '-' ∧ atSpace rest then x.blockEntry?
    else if c = '?' ∧ (flow || atSpace rest) then x.explicitKey?
    else if c = ':' ∧ (flow || atSpace rest) then x.value?
    else if c = '*' then x.nodeWord? fun s => (name? s).map fun p => (.alias p.1, p.2)
    else if c = '&' then x.nodeWord? fun s => (name? s).map fun p => (.anchor p.1, p.2)
    else if c = '!' then x.nodeWord? (tag? flow)
    else if c = '|' ∧ !flow then x.blockScalar? true
    else if c = '>' ∧ !flow then x.blockScalar? false
    else if c = '\'' then x.nodeWord? (quotedWord? true)
    else if c = '"' then x.nodeWord? (quotedWord? false)
    else if startsPlain flow c rest then x.plain?
    else none

/-- The next token of the text, with the block ends before it. It is told by a look at four
characters, as a document mark and a character after it take. -/
def fetch? (x : Lexer) : Option Lexer := do
  let x ← toNextToken? (x.source.size + 1) x
  let x ← x.dropStale?
  if x.source.reaches 4 then (x.unroll x.source.column).nextToken? else none

end Lexer

/-! ## The whole text -/

/-- The tokens of a text up to its first fault, if it has one. -/
structure Tokens where
  list : List Token
  whole : Bool

/-- The tokens from a state on. -/
def Lexer.run : Nat → Lexer → Tokens
  | 0, x => ⟨x.settled, false⟩
  | fuel + 1, x =>
    match x.dropStale? with
    | none => ⟨x.settled, false⟩
    | some x =>
      match x.fetch? with
      | none => ⟨x.settled, false⟩
      | some y =>
        if y.tokens.head? = some .streamEnd then ⟨y.tokens.reverse, true⟩ else run fuel y

def tokens (bytes : Bytes) : Tokens :=
  let source := Source.ofBytes bytes
  (Lexer.start source).run (source.size + 2)

end DocDrive.Yaml
