import DocDrive.Yaml.Source

/-!
# Plain and quoted scalars

Both run over several lines: a single break between words is a space, further breaks stay, and
blanks around breaks are dropped. `Gap` is what lies between two words of a scalar; `Gap.text` is
what remains of it.
-/

namespace DocDrive.Yaml

/-! ## Gaps -/

/-- The blanks and breaks since the last word of a scalar. -/
structure Gap where
  /-- The blanks before any break, the newest first. -/
  blanks : List Char := []
  firstBreak : List Char := []
  /-- The breaks after the first, the newest first. -/
  moreBreaks : List Char := []
  /-- A break has been passed, so blanks no longer count. -/
  broken : Bool := false

namespace Gap

def none : Gap := {}

def isSome (g : Gap) : Bool := g.broken || !g.blanks.isEmpty

def blank (g : Gap) (c : Char) : Gap :=
  if g.broken then g else { g with blanks := c :: g.blanks }

def newLine (g : Gap) (text : List Char) : Gap :=
  if g.broken then { g with moreBreaks := text.reverse ++ g.moreBreaks }
  else { blanks := [], firstBreak := text, moreBreaks := [], broken := true }

/-- What a gap adds to the scalar, backward. -/
def backward (g : Gap) : List Char :=
  if !g.broken then g.blanks
  else if g.firstBreak = ['\n'] then
    if g.moreBreaks.isEmpty then [' '] else g.moreBreaks
  else g.moreBreaks ++ g.firstBreak.reverse

def text (g : Gap) : List Char := g.backward.reverse

/-- A scalar, written backward, with the gap at its end. -/
def onto (g : Gap) (done : List Char) : List Char := g.backward ++ done

end Gap

/-! ## Escapes -/

def hexDigit? (c : Char) : Option Nat :=
  if c.isDigit then some (c.toNat - '0'.toNat)
  else if 'a' ≤ c ∧ c ≤ 'f' then some (c.toNat - 'a'.toNat + 10)
  else if 'A' ≤ c ∧ c ≤ 'F' then some (c.toNat - 'A'.toNat + 10)
  else none

def hexValue? (cs : List Char) : Option Nat :=
  cs.foldlM (fun n c => (hexDigit? c).map (n * 16 + ·)) 0

/-- The character of an escape of one letter. -/
def shortEscape? : Char → Option Char
  | '0' => some '\x00'
  | 'a' => some '\x07'
  | 'b' => some '\x08'
  | 't' => some '\t'
  | '\t' => some '\t'
  | 'n' => some '\n'
  | 'v' => some '\x0b'
  | 'f' => some '\x0c'
  | 'r' => some '\r'
  | 'e' => some '\x1b'
  | ' ' => some ' '
  | '"' => some '"'
  | '/' => some '/'
  | '\\' => some '\\'
  | 'N' => some nextLine
  | '_' => some '\u00a0'
  | 'L' => some lineSeparator
  | 'P' => some paragraphSeparator
  | _ => none

/-- The digits that an escape by number takes. -/
def escapeWidth? : Char → Option Nat
  | 'x' => some 2
  | 'u' => some 4
  | 'U' => some 8
  | _ => none

/-- The character of an escape whose letter is `e`, followed by `cs`, and the length of both. -/
def escape? (e : Char) (cs : List Char) : Option (Char × Nat) :=
  match shortEscape? e with
  | some c => some (c, 1)
  | none =>
    match escapeWidth? e with
    | none => none
    | some width =>
      let digits := cs.take width
      if digits.length < width then none
      else
        match hexValue? digits with
        | none => none
        | some n =>
          if (0xD800 ≤ n ∧ n ≤ 0xDFFF) ∨ n > 0x10FFFF then none
          else some (Char.ofNat n, width + 1)

/-! ## Quoted scalars -/

/-- The rest of a scalar after its opening quote; `single` quotes know no escapes but a doubled
quote. A word is begun with a look at four characters, as a document mark and a character after it
take, and inside a word a character is read together with the one after it. -/
def quotedFrom (single : Bool) : Nat → List Char → Gap → Source → Option (List Char × Source)
  | 0, _, _, _ => none
  | fuel + 1, done, gap, s =>
    match s.rest with
    | [] => none
    | c :: rest =>
      if isBlank c then quotedFrom single fuel done (gap.blank c) (s.skip 1)
      else if isBreak c then
        let (text, s) := s.readLine
        quotedFrom single fuel done (gap.newLine text) s
      else if !s.reaches (if gap.isSome then 4 else 2) || s.atDocumentMark then none
      else
        let done := gap.onto done
        if single then
          match c, rest with
          | '\'', '\'' :: _ => quotedFrom single fuel ('\'' :: done) .none (s.skip 2)
          | '\'', _ => some (done.reverse, s.skip 1)
          | _, _ => quotedFrom single fuel (c :: done) .none (s.skip 1)
        else
          match c, rest with
          | '"', _ => some (done.reverse, s.skip 1)
          | '\\', [] => none
          | '\\', e :: after =>
            if isBreak e then
              let s := (s.skip 1).skipLine
              if s.rest.head? = some '"' then some (done.reverse, s.skip 1)
              else quotedFrom single fuel done { broken := true } s
            else
              match escape? e after with
              | none => none
              | some (c, n) => quotedFrom single fuel (c :: done) .none (s.skip (n + 1))
          | _, _ => quotedFrom single fuel (c :: done) .none (s.skip 1)

/-- A quoted scalar at its opening quote. -/
def quoted (single : Bool) (s : Source) : Option (List Char × Source) :=
  let s := s.skip 1
  if s.reaches 4 then quotedFrom single (s.size + 1) [] .none s else none

/-! ## Plain scalars -/

/-- Characters that end a plain scalar inside flow collections. -/
def endsFlowPlain (c : Char) : Bool :=
  c == ',' || c == '[' || c == ']' || c == '\x7b' || c == '\x7d'

/-- Characters that may not follow a colon inside a plain scalar of a flow collection. -/
def badAfterColon (c : Char) : Bool := endsFlowPlain c || c == '?'

/-- The rest of a plain scalar: its text, the position after it and the gap before that, which is
not part of the text. Outside flow collections its lines start at `indent` or later. As many
characters are looked at as in a quoted scalar. -/
def plainFrom (flow : Bool) (indent : Int) :
    Nat → List Char → Gap → Source → Option (List Char × Gap × Source)
  | 0, done, gap, s => some (done.reverse, gap, s)
  | fuel + 1, done, gap, s =>
    match s.rest with
    | [] => if s.cut then none else some (done.reverse, gap, s)
    | c :: rest =>
      if isBlank c then
        if gap.broken && decide ((s.column : Int) < indent) && c == '\t' then none
        else plainFrom flow indent fuel done (gap.blank c) (s.skip 1)
      else if isBreak c then
        let (text, s) := s.readLine
        plainFrom flow indent fuel done (gap.newLine text) s
      else if gap.isSome && !flow && decide ((s.column : Int) < indent) then
        some (done.reverse, gap, s)
      else if !s.reaches (if gap.isSome then 4 else 2) then none
      else if s.atDocumentMark then some (done.reverse, gap, s)
      else if gap.isSome && c == '#' then some (done.reverse, gap, s)
      else if flow && c == ':' && rest.head?.any badAfterColon then none
      else if (c == ':' && atSpace rest) || (flow && endsFlowPlain c) then
        some (done.reverse, gap, s)
      else plainFrom flow indent fuel (c :: gap.onto done) .none (s.skip 1)

/-- A plain scalar at its first character. -/
def plain (flow : Bool) (indent : Int) (s : Source) : Option (List Char × Gap × Source) :=
  plainFrom flow indent (s.size + 1) [] .none s

end DocDrive.Yaml
