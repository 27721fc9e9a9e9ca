import DocDrive.Node

/-!
# Pointers into documents

A pointer is a text that leads from the root of a document to a node: a token after each `/`, which
is a key of a mapping or an index into a sequence. In a token `~` is written `~0` and `/` is written
`~1`. A pointer may follow a `#`, as it does in a reference.

* `Pointer.escape` and `Pointer.unescape` are `escape_token` and `unescape_token`.
* `Pointer.tokens?` reads a pointer and `Pointer.write` writes one.
* `Node.resolve?` follows a pointer, as `StructuralIndex.resolve_pointer` does; `Node.at?` follows a
  position given as steps.
-/

namespace DocDrive

namespace Pointer

/-! ## Escaping -/

/-- Every occurrence of a character replaced by a text. -/
def replaceChar (c : Char) (text : List Char) (cs : List Char) : List Char :=
  cs.flatMap fun x => if x = c then text else [x]

/-- Every occurrence of a pair of characters replaced by one character, from the left. -/
def replacePair (a b c : Char) : List Char → List Char
  | [] => []
  | [x] => [x]
  | x :: y :: rest =>
    if x = a ∧ y = b then c :: replacePair a b c rest else x :: replacePair a b c (y :: rest)

/-- A key as a token. -/
def escape (key : List Char) : List Char :=
  replaceChar '/' ['~', '1'] (replaceChar '~' ['~', '0'] key)

/-- The key that a token stands for. -/
def unescape (token : List Char) : List Char :=
  replacePair '~' '0' '~' (replacePair '~' '1' '/' token)

/-! ## Reading and writing -/

/-- The parts between slashes. -/
def split : List Char → List (List Char)
  | [] => [[]]
  | c :: rest =>
    if c = '/' then [] :: split rest
    else
      match split rest with
      | [] => [[c]]
      | part :: parts => (c :: part) :: parts

/-- A text without one leading `#`. -/
def dropHash : List Char → List Char
  | '#' :: rest => rest
  | cs => cs

/-- The tokens of a pointer, still escaped; none if the text is no pointer. -/
def tokens? (text : List Char) : Option (List (List Char)) :=
  match dropHash text with
  | [] => some []
  | '/' :: rest => some (split rest)
  | _ => none

/-- The pointer made of keys and indices as texts. -/
def write (keys : List (List Char)) : List Char := keys.flatMap fun k => '/' :: escape k

/-! ## Indices -/

/-- Indices are smaller than this. -/
def indexBound : Nat := Nat.pow 2 64

def decimal (digits : List Char) : Nat :=
  digits.foldl (fun n c => n * 10 + (c.toNat - '0'.toNat)) 0

/-- A decimal index, which may have a plus sign and leading zeros. -/
def index? (token : List Char) : Option Nat :=
  let digits := match token with
    | '+' :: rest => rest
    | cs => cs
  if digits.isEmpty || !digits.all Char.isDigit then none
  else
    let n := decimal digits
    if n < indexBound then some n else none

end Pointer

namespace Node

/-! ## Following -/

/-- The node that an unescaped token leads to: under a text key of a mapping, tagged or not, or at
an index of a sequence. -/
def child? (key : List Char) : Node → Option Node
  | mapping entries => lookup (.ofList key) entries
  | sequence items => (Pointer.index? key).bind fun i => items[i]?
  | tagged _ (mapping entries) => lookup (.ofList key) entries
  | _ => none

/-- The node that unescaped tokens lead to, one after the other. -/
def descend? (n : Node) : List (List Char) → Option Node
  | [] => some n
  | key :: rest => (n.child? key).bind fun m => m.descend? rest

def resolve? (n : Node) (pointer : String) : Option Node :=
  (Pointer.tokens? pointer.toList).bind fun tokens => n.descend? (tokens.map Pointer.unescape)

end Node

/-! ## Positions -/

inductive Step where
  | key (name : String)
  | index (i : Nat)
  deriving DecidableEq, Repr

/-- A step as the text of a token, not yet escaped. -/
def Step.text : Step → List Char
  | key name => name.toList
  | index i => Nat.toDigits 10 i

def Node.under? (n : Node) : Step → Option Node
  | .key name =>
    match n with
    | .mapping entries => lookup name entries
    | _ => none
  | .index i =>
    match n with
    | .sequence items => items[i]?
    | _ => none

def Node.at? (n : Node) : List Step → Option Node
  | [] => some n
  | s :: rest => (n.under? s).bind fun m => m.at? rest

def Pointer.ofSteps (steps : List Step) : List Char := write (steps.map Step.text)

end DocDrive
