/-!
# Writing JSON

JSON values as they are printed for people: one member or item a line, two spaces for each level,
members in the order given. Empty arrays and objects stay on one line.
-/

namespace DocDrive.Json

inductive Value where
  | string (text : String)
  | number (n : Nat)
  | array (items : List Value)
  | object (members : List (String × Value))
  deriving Repr

/-! ## Strings -/

def escapeChar (c : Char) : List Char :=
  match c with
  | '"' => ['\\', '"']
  | '\\' => ['\\', '\\']
  | '\x08' => ['\\', 'b']
  | '\x0c' => ['\\', 'f']
  | '\n' => ['\\', 'n']
  | '\r' => ['\\', 'r']
  | '\t' => ['\\', 't']
  | c =>
    if c.toNat < 0x20 then
      ['\\', 'u', '0', '0', Nat.digitChar (c.toNat / 16), Nat.digitChar (c.toNat % 16)]
    else [c]

def quote (text : String) : String :=
  String.ofList ('"' :: text.toList.flatMap escapeChar ++ ['"'])

/-! ## Layout -/

def newLine (level : Nat) : String := String.ofList ('\n' :: List.replicate (2 * level) ' ')

namespace Value

mutual

/-- A value whose further lines stand at a level. -/
def pretty (level : Nat) : Value → String
  | string text => quote text
  | number n => toString n
  | array [] => "[]"
  | array items => "[" ++ prettyItems (level + 1) items ++ newLine level ++ "]"
  | object [] => "\x7b\x7d"
  | object members => "\x7b" ++ prettyMembers (level + 1) members ++ newLine level ++ "\x7d"

/-- Items, each on a line of its own. -/
def prettyItems (level : Nat) : List Value → String
  | [] => ""
  | [v] => newLine level ++ v.pretty level
  | v :: rest => newLine level ++ v.pretty level ++ "," ++ prettyItems level rest

/-- Members, each on a line of its own. -/
def prettyMembers (level : Nat) : List (String × Value) → String
  | [] => ""
  | [(k, v)] => newLine level ++ quote k ++ ": " ++ v.pretty level
  | (k, v) :: rest =>
    newLine level ++ quote k ++ ": " ++ v.pretty level ++ "," ++ prettyMembers level rest

end

end Value

end DocDrive.Json
