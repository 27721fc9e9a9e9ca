import DocDrive.Node

/-!
# What plain scalars mean

A plain scalar is null, a boolean, an integer, a float or else text, by the core schema of YAML.
`resolve?` decides; it has no answer for integers between 64 and 128 bits, which no node holds.
-/

namespace DocDrive.Yaml

/-! ## Words -/

def nulls : List String := ["~", "null", "Null", "NULL"]

def trues : List String := ["true", "True", "TRUE"]

def falses : List String := ["false", "False", "FALSE"]

def isWord (words : List String) (cs : List Char) : Bool := words.contains (String.ofList cs)

def bool? (cs : List Char) : Option Bool :=
  if isWord trues cs then some true else if isWord falses cs then some false else none

/-! ## Integers -/

def digitValue (c : Char) : Nat := c.toNat - '0'.toNat

/-- A digit of a radix up to sixteen. -/
def radixDigit? (radix : Nat) (c : Char) : Option Nat :=
  let d :=
    if c.isDigit then some (digitValue c)
    else if 'a' ≤ c ∧ c ≤ 'f' then some (c.toNat - 'a'.toNat + 10)
    else if 'A' ≤ c ∧ c ≤ 'F' then some (c.toNat - 'A'.toNat + 10)
    else none
  d.bind fun n => if n < radix then some n else none

/-- The least natural number of more than 128 bits. -/
def tooWide : Nat := Nat.pow 2 128

/-- A natural number in a radix. All that are too wide read as `tooWide`, so that the work on a
digit does not grow with the digits before it. -/
def natural? (radix : Nat) (cs : List Char) : Option Nat :=
  if cs.isEmpty then none
  else cs.foldlM (fun n c => (radixDigit? radix c).map fun d => min tooWide (n * radix + d)) 0

/-- Digits with a leading zero, which are text. -/
def isPaddedDigits (cs : List Char) : Bool :=
  let cs := match cs with
    | '-' :: rest => rest
    | '+' :: rest => rest
    | cs => cs
  match cs with
  | '0' :: rest => !rest.isEmpty && rest.all Char.isDigit
  | _ => false

/-- A natural number with the mark of its radix, if it has one. -/
def marked? : List Char → Option Nat
  | '0' :: 'x' :: rest => natural? 16 rest
  | '0' :: 'o' :: rest => natural? 8 rest
  | '0' :: 'b' :: rest => natural? 2 rest
  | cs => natural? 10 cs

/-- An integer: a sign, perhaps the mark of a radix, and digits. Its size is right up to
`tooWide`. -/
def integer? (cs : List Char) : Option Int :=
  if isPaddedDigits cs then none
  else
    match cs with
    | '+' :: rest => (marked? rest).map Int.ofNat
    | '-' :: rest => (marked? rest).map fun n => -(n : Int)
    | cs => (marked? cs).map Int.ofNat

/-- Integers that nodes hold: signed or unsigned, of 64 bits. -/
def fitsNode (n : Int) : Bool :=
  decide (-(Nat.pow 2 63 : Int) ≤ n) && decide (n < (Nat.pow 2 64 : Int))

/-- Integers of 128 bits, signed or unsigned. -/
def fitsWide (n : Int) : Bool :=
  decide (-(Nat.pow 2 127 : Int) ≤ n) && decide (n < (tooWide : Int))

/-! ## Floats -/

/-- Digits at the head of a text, and the rest. -/
def digits (cs : List Char) : List Char × List Char :=
  (cs.takeWhile Char.isDigit, cs.dropWhile Char.isDigit)

/-- An exponent that has come this far takes no more digits. -/
def exponentLimit : Nat := Nat.pow 2 16

/-- The value of the digits of an exponent, of which those after the first to reach
`exponentLimit` count nothing. -/
def exponentValue (cs : List Char) : Nat :=
  cs.foldl (fun n c => if n < exponentLimit then n * 10 + digitValue c else n) 0

/-- An exponent: nothing, or a mark, a sign and digits up to the end. -/
def exponent? : List Char → Option Int
  | [] => some 0
  | c :: rest =>
    if c ≠ 'e' ∧ c ≠ 'E' then none
    else
      let (negative, rest) := match rest with
        | '-' :: rest => (true, rest)
        | '+' :: rest => (false, rest)
        | rest => (false, rest)
      if rest.isEmpty || !rest.all Char.isDigit then none
      else some (if negative then -(exponentValue rest : Int) else exponentValue rest)

/-- A decimal number without sign: digits on one side of a point at least, and an exponent. -/
def decimal? (negative : Bool) (cs : List Char) : Option Binary64 :=
  let (whole, rest) := digits cs
  let (part, rest) := match rest with
    | '.' :: rest => digits rest
    | rest => ([], rest)
  if whole.isEmpty && part.isEmpty then none
  else
    (exponent? rest).bind fun e =>
      let x := Binary64.ofDecimal negative ((whole ++ part).map digitValue) (e - part.length)
      if x.isFinite then some x else none

/-- A float: an infinity, a NaN or a finite decimal number. -/
def float? (cs : List Char) : Option Binary64 :=
  if isWord [".inf", ".Inf", ".INF", "+.inf", "+.Inf", "+.INF"] cs then some (.infinity false)
  else if isWord ["-.inf", "-.Inf", "-.INF"] cs then some (.infinity true)
  else if isWord [".nan", ".NaN", ".NAN"] cs then some .nan
  else
    match cs with
    | '-' :: rest => decimal? true rest
    | '+' :: rest => decimal? false rest
    | cs => decimal? false cs

/-! ## Meaning -/

/-- The integer that a text writes, as a node if one holds it. -/
def integerNode? (cs : List Char) : Option (Option Node) :=
  match integer? cs with
  | none => none
  | some n =>
    if fitsNode n then some (some (.int n))
    else if fitsWide n then some none
    else none

/-- The meaning of a plain scalar. -/
def resolve? (cs : List Char) : Option Node :=
  if cs.isEmpty || isWord nulls cs then some .null
  else
    match bool? cs with
    | some b => some (.bool b)
    | none =>
      match integerNode? cs with
      | some n => n
      | none =>
        if isPaddedDigits cs then some (.string (.ofList cs))
        else
          match float? cs with
          | some x => some (.float x)
          | none => some (.string (.ofList cs))

/-! ## Forced meaning -/

/-- The tags that force the meaning of a scalar. -/
inductive CoreTag where
  | null
  | bool
  | int
  | float
  deriving DecidableEq, Repr

def coreTag? (tag : String) : Option CoreTag :=
  if tag = "tag:yaml.org,2002:null" then some .null
  else if tag = "tag:yaml.org,2002:bool" then some .bool
  else if tag = "tag:yaml.org,2002:int" then some .int
  else if tag = "tag:yaml.org,2002:float" then some .float
  else none

/-- The meaning of a scalar under a core tag, however it is quoted. -/
def force? (tag : CoreTag) (cs : List Char) : Option Node :=
  match tag with
  | .null => if isWord nulls cs then some .null else none
  | .bool => (bool? cs).map .bool
  | .int => (integerNode? cs).join
  | .float => (float? cs).map .float

end DocDrive.Yaml
