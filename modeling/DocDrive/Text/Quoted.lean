import DocDrive.Path
import DocDrive.Text.Visible

/-!
# Quoted text

Texts and paths as they are shown to developers: in double quotes, with escapes for quotes,
backslashes, invisible characters and characters that would be drawn onto the one before them.
Bytes of a path that are no text are shown in hexadecimal.
-/

namespace DocDrive.Quoted

/-! ## Characters -/

/-- A character that stands for itself between quotes. -/
def isShown (c : Char) : Bool := isVisible c && !isCombining c

def escape (c : Char) : List Char :=
  match c with
  | '"' => ['\\', '"']
  | '\\' => ['\\', '\\']
  | '\n' => ['\\', 'n']
  | '\r' => ['\\', 'r']
  | '\t' => ['\\', 't']
  | '\x00' => ['\\', '0']
  | c =>
    if isShown c then [c]
    else "\\u\x7b".toList ++ Nat.toDigits 16 c.toNat ++ ['\x7d']

/-! ## Texts and paths -/

def text (s : String) : String := String.ofList ('"' :: s.toList.flatMap escape ++ ['"'])

/-- A byte that is no text. -/
def byte (b : UInt8) : List Char :=
  ['\\', 'x', (Nat.digitChar (b.toNat / 16)).toUpper, (Nat.digitChar (b.toNat % 16)).toUpper]

def path (p : Path) : String :=
  let body := (Utf8.spans p.bytes).flatMap fun span =>
    match span with
    | .ok c => escape c
    | .error bytes => bytes.flatMap byte
  String.ofList ('"' :: body ++ ['"'])

/-- A record of a kind with its named fields. -/
def fields (kind : String) (parts : List (String × String)) : String :=
  kind ++ " \x7b " ++ ", ".intercalate (parts.map fun f => f.1 ++ ": " ++ f.2) ++ " \x7d"

def list (parts : List String) : String := "[" ++ ", ".intercalate parts ++ "]"

def option : Option String → String
  | none => "None"
  | some s => "Some(" ++ s ++ ")"

end DocDrive.Quoted
