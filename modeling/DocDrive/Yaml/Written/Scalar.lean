import DocDrive.Yaml.Scalar
import DocDrive.Yaml.Source

/-!
# Writing scalars

`Form.ofText` chooses how a text is written so that it is read back as the same text: plainly where
nothing speaks against it, then in single quotes, then in double quotes; a text of several lines is
a literal block if it can be one. `quoted` and `literal` write the forms out.
-/

namespace DocDrive.Yaml

/-! ## What speaks against a form -/

def isPrintable (c : Char) : Bool :=
  let n := c.toNat
  c == '\n' || (0x20 ≤ n && n ≤ 0x7E) ||
    (0xA0 ≤ n && n != 0xFEFF && n != 0xFFFE && n != 0xFFFF)

/-- Some character of one class stands right before one of another. -/
def hasPair (p q : Char → Bool) : List Char → Bool
  | a :: b :: rest => (p a && q b) || hasPair p q (b :: rest)
  | _ => false

def isSpace (c : Char) : Bool := c == ' '

/-- Characters that mean something at the start of a node. -/
def opensNode (c : Char) : Bool := "#,[]\x7b\x7d&*!|>'\"%@\x60".toList.contains c

/-- Characters that mean something at the start of a node when a space follows. -/
def opensEntry (c : Char) : Bool := c == '?' || c == ':' || c == '-'

/-- An end of a key or the start of a comment after the first character. -/
def hasInnerMark : Char → List Char → Bool
  | _, [] => false
  | before, c :: rest =>
    (c == ':' && atSpace rest) || (c == '#' && (isBlank before || isBreak before)) ||
      hasInnerMark c rest

/-- The text would not be read as one plain scalar. -/
def hasMark : List Char → Bool
  | [] => false
  | c :: rest =>
    "---".toList.isPrefixOf (c :: rest) || "...".toList.isPrefixOf (c :: rest) ||
      opensNode c || (opensEntry c && atSpace rest) || hasInnerMark c rest

def isMultiline (cs : List Char) : Bool := cs.any isBreak

def needsEscape (cs : List Char) : Bool := !cs.all isPrintable

/-- A space starts or ends the text. -/
def hasEdgeSpace (cs : List Char) : Bool := cs.head? == some ' ' || cs.getLast? == some ' '

def allowsPlain (cs : List Char) : Bool :=
  !hasEdgeSpace cs && !isMultiline cs && !needsEscape cs && !hasMark cs

def allowsSingle (cs : List Char) : Bool :=
  !hasPair isBreak isSpace cs && !hasPair isSpace isBreak cs && !needsEscape cs

def allowsLiteral (cs : List Char) : Bool :=
  cs.getLast? != some ' ' && !hasPair isSpace isBreak cs && !needsEscape cs

/-! ## The choice -/

inductive Form where
  | plain
  | single
  | double
  | literal
  deriving DecidableEq, Repr

namespace Form

/-- A plain scalar of this spelling would not be read as text, or looks like a number. -/
def isMisread (cs : List Char) : Bool :=
  match resolve? cs with
  | some (.string _) => isPaddedDigits cs
  | _ => true

/-- Single quotes, or double ones where those cannot be. -/
def quotes (cs : List Char) : Form := if allowsSingle cs then single else double

def ofText (cs : List Char) : Form :=
  if cs.contains '\n' then
    if allowsLiteral cs then literal else double
  else if isMisread cs then quotes cs
  else if allowsPlain cs then plain
  else quotes cs

end Form

/-! ## Quotes -/

/-- `n` as that many capital hexadecimal digits. -/
def hexDigits (n : Nat) : Nat → List Char
  | 0 => []
  | width + 1 => hexDigits (n / 16) width ++ [(Nat.digitChar (n % 16)).toUpper]

def escaped (c : Char) : List Char :=
  let n := c.toNat
  '\\' ::
    match n with
    | 0x00 => ['0']
    | 0x07 => ['a']
    | 0x08 => ['b']
    | 0x09 => ['t']
    | 0x0A => ['n']
    | 0x0B => ['v']
    | 0x0C => ['f']
    | 0x0D => ['r']
    | 0x1B => ['e']
    | 0x22 => ['"']
    | 0x5C => ['\\']
    | 0x85 => ['N']
    | 0x2028 => ['L']
    | 0x2029 => ['P']
    | _ =>
      if n ≤ 0xFF then 'x' :: hexDigits n 2
      else if n ≤ 0xFFFF then 'u' :: hexDigits n 4
      else 'U' :: hexDigits n 8

def doubleQuoted (cs : List Char) : List Char :=
  let body := cs.flatMap fun c =>
    if !isPrintable c || isBreak c || c == '"' || c == '\\' then escaped c else [c]
  '"' :: body ++ ['"']

/-- Lines that follow a break, each after `indent` spaces unless it is empty. -/
def indentLines (indent : Nat) : Bool → List Char → List Char
  | _, [] => []
  | afterBreak, c :: rest =>
    let spaces := if afterBreak && !isBreak c then List.replicate indent ' ' else []
    spaces ++ c :: indentLines indent (isBreak c) rest

/-- A text in single quotes, a quote in it written twice. Lines after the first are indented, and so
is the closing quote after a break. -/
def singleQuoted (indent : Nat) (cs : List Char) : List Char :=
  let body := cs.flatMap fun c => if c == '\'' then ['\'', '\''] else [c]
  let close := match cs.getLast? with
    | some c => if isBreak c then List.replicate indent ' ' else []
    | none => []
  '\'' :: indentLines indent false body ++ close ++ ['\'']

/-! ## Literal blocks -/

/-- What the head of a literal block tells about the breaks at its end: none, one or more. -/
def chompMark (cs : List Char) : List Char :=
  match cs.reverse with
  | [] => ['-']
  | [c] => if isBreak c then ['+'] else ['-']
  | c :: d :: _ => if !isBreak c then ['-'] else if isBreak d then ['+'] else []

/-- A literal block with its lines indented. Text that starts with a space or an empty line tells its
indentation. -/
def literal (indent : Nat) (cs : List Char) : List Char :=
  let hint := match cs with
    | c :: _ => if isSpace c || isBreak c then ['2'] else []
    | [] => []
  '|' :: hint ++ chompMark cs ++ '\n' :: indentLines indent true cs

/-- A text in the form that suits it, with further lines indented. -/
def writeText (indent : Nat) (cs : List Char) : List Char :=
  match Form.ofText cs with
  | .plain => cs
  | .single => singleQuoted indent cs
  | .double => doubleQuoted cs
  | .literal => literal indent cs

end DocDrive.Yaml
