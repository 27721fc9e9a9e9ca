import DocDrive.Json.Number
import DocDrive.Text.Utf8

/-!
# Reading JSON

`Json.read?` reads one strict JSON text: no comments, no byte order mark, no lone surrogates, at
most 127 containers inside one another. Members of an object come out in the order of their keys,
and of members with one key the last counts.
-/

namespace DocDrive.Json

/-! ## Blanks and strings -/

def isBlank (c : Char) : Bool := c == ' ' || c == '\n' || c == '\t' || c == '\r'

def skipBlanks (cs : List Char) : List Char := cs.dropWhile isBlank

/-- The value of a hexadecimal digit of either case. -/
def hexDigit? (c : Char) : Option Nat :=
  if c.isDigit then some (c.toNat - '0'.toNat)
  else if 'a' ≤ c ∧ c ≤ 'f' then some (c.toNat - 'a'.toNat + 10)
  else if 'A' ≤ c ∧ c ≤ 'F' then some (c.toNat - 'A'.toNat + 10)
  else none

def hex4? : List Char → Option (Nat × List Char)
  | a :: b :: c :: d :: rest => do
    let a ← hexDigit? a
    let b ← hexDigit? b
    let c ← hexDigit? c
    let d ← hexDigit? d
    some (((a * 16 + b) * 16 + c) * 16 + d, rest)
  | _ => none

/-- The character of a Unicode escape, which may need a second one for the other half of a pair. -/
def unicode? (cs : List Char) : Option (Char × List Char) :=
  match hex4? cs with
  | none => none
  | some (high, rest) =>
    if high < 0xD800 ∨ high > 0xDFFF then some (Char.ofNat high, rest)
    else if high ≥ 0xDC00 then none
    else
      match rest with
      | '\\' :: 'u' :: rest =>
        match hex4? rest with
        | none => none
        | some (low, rest) =>
          if low < 0xDC00 ∨ low > 0xDFFF then none
          else some (Char.ofNat (0x10000 + (high - 0xD800) * 0x400 + (low - 0xDC00)), rest)
      | _ => none

def escape? : Char → Option Char
  | '"' => some '"'
  | '\\' => some '\\'
  | '/' => some '/'
  | 'b' => some '\x08'
  | 'f' => some '\x0c'
  | 'n' => some '\n'
  | 'r' => some '\r'
  | 't' => some '\t'
  | _ => none

/-- The rest of a string after its opening quote. -/
def string? : Nat → List Char → List Char → Option (List Char × List Char)
  | 0, _, _ => none
  | fuel + 1, done, cs =>
    match cs with
    | [] => none
    | '"' :: rest => some (done.reverse, rest)
    | '\\' :: 'u' :: rest =>
      match unicode? rest with
      | none => none
      | some (c, rest) => string? fuel (c :: done) rest
    | '\\' :: e :: rest =>
      match escape? e with
      | none => none
      | some c => string? fuel (c :: done) rest
    | c :: rest => if c.toNat < 0x20 ∨ c = '\\' then none else string? fuel (c :: done) rest

/-! ## Values -/

/-- A member before others in key order, in place of one with its key. -/
def putFirst (m : String × Node) : List (String × Node) → List (String × Node)
  | [] => [m]
  | n :: rest => if m.1 = n.1 then m :: rest else m :: n :: rest

/-- An object in key order. `members` are the newest first, and of a key the newest counts. -/
def object (members : List (String × Node)) : Node :=
  let sorted := members.mergeSort fun m n => decide (m.1 ≤ n.1)
  .mapping ((sorted.foldr putFirst []).map fun m => (.string m.1, m.2))

def afterWord? (word cs : List Char) : Option (List Char) :=
  if word.isPrefixOf cs then some (cs.drop word.length) else none

mutual

/-- A value with room for `depth` containers. -/
def value? : Nat → Nat → List Char → Option (Node × List Char)
  | 0, _, _ => none
  | fuel + 1, depth, cs =>
    match skipBlanks cs with
    | [] => none
    | '"' :: rest => (string? fuel [] rest).map fun s => (.string (.ofList s.1), s.2)
    | '-' :: rest => number? true rest
    | '[' :: rest =>
      match depth with
      | 0 => none
      | depth + 1 =>
        match skipBlanks rest with
        | ']' :: rest => some (.sequence [], rest)
        | rest => items? fuel depth [] rest
    | '\x7b' :: rest =>
      match depth with
      | 0 => none
      | depth + 1 =>
        match skipBlanks rest with
        | '\x7d' :: rest => some (.mapping [], rest)
        | rest => members? fuel depth [] rest
    | 'n' :: rest => (afterWord? "ull".toList rest).map (.null, ·)
    | 't' :: rest => (afterWord? "rue".toList rest).map (.bool true, ·)
    | 'f' :: rest => (afterWord? "alse".toList rest).map (.bool false, ·)
    | rest => number? false rest

/-- The items of an array from the first or next one on. -/
def items? : Nat → Nat → List Node → List Char → Option (Node × List Char)
  | 0, _, _, _ => none
  | fuel + 1, depth, done, cs =>
    match value? fuel depth cs with
    | none => none
    | some (item, rest) =>
      match skipBlanks rest with
      | ',' :: rest => items? fuel depth (item :: done) rest
      | ']' :: rest => some (.sequence (item :: done).reverse, rest)
      | _ => none

/-- The members of an object from the first or next one on; `done` are those before, the newest
first. -/
def members? : Nat → Nat → List (String × Node) → List Char → Option (Node × List Char)
  | 0, _, _, _ => none
  | fuel + 1, depth, done, cs =>
    match skipBlanks cs with
    | '"' :: rest =>
      match string? fuel [] rest with
      | none => none
      | some (key, rest) =>
        match skipBlanks rest with
        | ':' :: rest =>
          match value? fuel depth rest with
          | none => none
          | some (value, rest) =>
            let done := (String.ofList key, value) :: done
            match skipBlanks rest with
            | ',' :: rest => members? fuel depth done rest
            | '\x7d' :: rest => some (object done, rest)
            | _ => none
        | _ => none
    | _ => none

end

/-- Containers that may lie inside one another. -/
def maxDepth : Nat := 127

/-- The document of a JSON text, or none if it is malformed. -/
def read? (bytes : Bytes) : Option Node :=
  match Utf8.decode? bytes with
  | none => none
  | some cs =>
    match value? (2 * cs.length + 2) maxDepth cs with
    | some (node, rest) => if (skipBlanks rest).isEmpty then some node else none
    | none => none

end DocDrive.Json
