/-!
# UTF-8 text as bytes

* `pieces` cuts a byte string into characters and ill-formed pieces: a piece is the longest run of
  bytes that begins some well-formed character but does not complete it, or else one byte.
* `decode?` reads a text that has no ill-formed piece; `lossy` shows each such piece as U+FFFD.
* `encode` writes characters back to bytes.
-/

namespace DocDrive

/-- A byte string: file content, or a path as the operating system spells it. -/
abbrev Bytes := List UInt8

namespace Utf8

/-! ## Reading one byte at a time -/

/-- Where the reader stands: between characters, or inside one with `more + 1` bytes still owed,
the next of which lies in `low … high`. -/
inductive State where
  | between
  | inside (more : Nat) (low high : UInt8) (value : Nat)
  deriving DecidableEq, Repr

/-- The first byte of a character: what it completes at once, and the state after it. -/
def first (b : UInt8) : List (Option Char) × State :=
  if b < 0x80 then ([some (Char.ofNat b.toNat)], .between)
  else if b < 0xC2 then ([none], .between)
  else if b < 0xE0 then ([], .inside 0 0x80 0xBF (b.toNat - 0xC0))
  else if b = 0xE0 then ([], .inside 1 0xA0 0xBF 0)
  else if b = 0xED then ([], .inside 1 0x80 0x9F 0xD)
  else if b < 0xF0 then ([], .inside 1 0x80 0xBF (b.toNat - 0xE0))
  else if b = 0xF0 then ([], .inside 2 0x90 0xBF 0)
  else if b < 0xF4 then ([], .inside 2 0x80 0xBF (b.toNat - 0xF0))
  else if b = 0xF4 then ([], .inside 2 0x80 0x8F 4)
  else ([none], .between)

/-- A byte after the first: it continues the character, or ends it as ill-formed and starts anew. -/
def next : State → UInt8 → List (Option Char) × State
  | .between, b => first b
  | .inside more low high value, b =>
    if low ≤ b ∧ b ≤ high then
      let value := value * 64 + (b.toNat - 0x80)
      match more with
      | 0 => ([some (Char.ofNat value)], .between)
      | more + 1 => ([], .inside more 0x80 0xBF value)
    else
      let (done, state) := first b
      (none :: done, state)

/-- The pieces of a byte string read from a given state. -/
def piecesFrom : State → Bytes → List (Option Char)
  | .between, [] => []
  | .inside .., [] => [none]
  | state, b :: rest =>
    let (done, state) := next state b
    done ++ piecesFrom state rest

/-- Characters in order, with `none` for every ill-formed piece. -/
def pieces (bytes : Bytes) : List (Option Char) :=
  piecesFrom .between bytes

/-! ## Ill-formed bytes -/

/-- Pieces with the bytes of the ill-formed ones, read from a given state. `pending` are the bytes of
the character being read, backward. -/
def spansFrom : State → Bytes → Bytes → List (Except Bytes Char)
  | .between, _, [] => []
  | .inside .., pending, [] => [.error pending.reverse]
  | state, pending, b :: rest =>
    let (done, after) := next state b
    let held := if after = .between then [] else if done.isEmpty then b :: pending else [b]
    let spans := match done, pending with
      | [], _ => []
      | [some c], _ => [.ok c]
      | [none], [] => [.error [b]]
      | [none], _ => [.error pending.reverse]
      | [_, some c], _ => [.error pending.reverse, .ok c]
      | _, _ => [.error pending.reverse, .error [b]]
    spans ++ spansFrom after held rest

/-- Characters in order, with the bytes of every ill-formed piece. -/
def spans (bytes : Bytes) : List (Except Bytes Char) := spansFrom .between [] bytes

/-! ## Text -/

/-- The characters of a well-formed text. -/
def decode? (bytes : Bytes) : Option (List Char) :=
  (pieces bytes).mapM id

/-- The characters with U+FFFD in place of every ill-formed piece. -/
def lossy (bytes : Bytes) : List Char :=
  (pieces bytes).map (·.getD '\uFFFD')

def encode (text : List Char) : Bytes :=
  text.flatMap String.utf8EncodeChar

def ofString (text : String) : Bytes :=
  encode text.toList

def toString? (bytes : Bytes) : Option String :=
  (decode? bytes).map String.ofList

/-- Any byte string as a string, ill-formed pieces shown as U+FFFD. -/
def toStringLossy (bytes : Bytes) : String :=
  String.ofList (lossy bytes)

end Utf8

end DocDrive
