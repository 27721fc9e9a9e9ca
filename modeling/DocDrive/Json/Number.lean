import DocDrive.Node

/-!
# Numbers of JSON

A number whose digits fit in sixty-four bits stays an integer, within the signed range if it is
negative and the unsigned range otherwise; `-0` and every other number become floats.

A float is computed from the longest significand that fits in sixty-four bits by one multiplication
or division by a power of ten, each rounded; later digits only count towards the exponent. A number
too large for a float is refused.
-/

namespace DocDrive.Json

/-! ## Digits -/

def digit? (c : Char) : Option Nat :=
  if c.isDigit then some (c.toNat - '0'.toNat) else none

def maxSignificand : Nat := Nat.pow 2 64 - 1

/-- Digits appended to a significand while it fits: the significand, how many, and the rest. -/
def fill (significand taken : Nat) : List Char → Nat × Nat × List Char
  | [] => (significand, taken, [])
  | c :: rest =>
    match digit? c with
    | none => (significand, taken, c :: rest)
    | some d =>
      if significand * 10 + d > maxSignificand then (significand, taken, c :: rest)
      else fill (significand * 10 + d) (taken + 1) rest

def startsWithDigit : List Char → Bool
  | c :: _ => c.isDigit
  | [] => false

/-- The digits at the head of a text, counted, and the rest. -/
def skipDigits (cs : List Char) : Nat × List Char :=
  ((cs.takeWhile Char.isDigit).length, cs.dropWhile Char.isDigit)

/-! ## Floats -/

def power (n : Nat) : Binary64 := .ofNat (Nat.pow 10 n)

/-- The largest power of ten below infinity. -/
def maxPower : Nat := 308

/-- `f · 10^e` in steps of at most `10^308`, for a float below `10^20`; three steps down leave
nothing of it. -/
def scale : Nat → Binary64 → Int → Option Binary64
  | 0, f, _ => some f
  | fuel + 1, f, e =>
    if e.natAbs ≤ maxPower then
      if e ≥ 0 then
        let product := f.mul (power e.natAbs)
        if product.isInfinite then none else some product
      else some (f.div (power e.natAbs))
    else if f.isZero then some f
    else if e ≥ 0 then none
    else scale fuel (f.div (power maxPower)) (e + maxPower)

/-- The float of a significand and an exponent of ten. -/
def float? (negative : Bool) (significand : Nat) (e : Int) : Option Node :=
  (scale 4 (.ofNat significand) e).map fun f => .float (f.withSign negative)

/-- Exponents are read up to the largest signed 32-bit number. -/
def maxExponent : Nat := Nat.pow 2 31 - 1

/-- The digits of an exponent: its value, or none when it grows too large, and the rest. -/
def exponentDigits (value : Nat) : List Char → Option Nat × List Char
  | [] => (some value, [])
  | c :: rest =>
    match digit? c with
    | none => (some value, c :: rest)
    | some d =>
      if value * 10 + d > maxExponent then (none, rest.dropWhile Char.isDigit)
      else exponentDigits (value * 10 + d) rest

def exponentSign : List Char → Bool × List Char
  | '+' :: rest => (false, rest)
  | '-' :: rest => (true, rest)
  | cs => (false, cs)

/-- What follows the `e` of a number. -/
def exponent? (negative : Bool) (significand : Nat) (start : Int) (cs : List Char) :
    Option (Node × List Char) :=
  let (down, cs) := exponentSign cs
  if !startsWithDigit cs then none
  else
    match exponentDigits 0 cs with
    | (none, rest) =>
      if significand ≠ 0 ∧ !down then none
      else some (.float ((Binary64.ofNat 0).withSign negative), rest)
    | (some e, rest) =>
      (float? negative significand (if down then start - e else start + e)).map (·, rest)

/-- The end of a number that is certainly a float. -/
def finish? (negative : Bool) (significand : Nat) (e : Int) : List Char → Option (Node × List Char)
  | 'e' :: rest => exponent? negative significand e rest
  | 'E' :: rest => exponent? negative significand e rest
  | cs => (float? negative significand e).map (·, cs)

/-- What follows the point of a number. -/
def fraction? (negative : Bool) (significand : Nat) (start : Int) (cs : List Char) :
    Option (Node × List Char) :=
  if !startsWithDigit cs then none
  else
    let (significand, taken, cs) := fill significand 0 cs
    finish? negative significand (start - taken) (cs.dropWhile Char.isDigit)

/-! ## Numbers -/

/-- The integer of a significand, unless its sign puts it out of range. -/
def integer (negative : Bool) (significand : Nat) : Node :=
  if !negative then .int significand
  else if significand = 0 ∨ significand > Nat.pow 2 63 then
    .float ((Binary64.ofNat significand).withSign true)
  else .int (-significand)

/-- The rest of a number after its digits before the point. -/
def afterDigits? (negative : Bool) (significand : Nat) (cs : List Char) :
    Option (Node × List Char) :=
  let (dropped, cs') := skipDigits cs
  match cs' with
  | '.' :: rest => fraction? negative significand dropped rest
  | 'e' :: rest => exponent? negative significand dropped rest
  | 'E' :: rest => exponent? negative significand dropped rest
  | _ =>
    if dropped = 0 then some (integer negative significand, cs')
    else (float? negative significand dropped).map (·, cs')

def number? (negative : Bool) : List Char → Option (Node × List Char)
  | '0' :: rest => if startsWithDigit rest then none else afterDigits? negative 0 rest
  | cs =>
    if !startsWithDigit cs then none
    else
      let (significand, _, cs) := fill 0 0 cs
      afterDigits? negative significand cs

end DocDrive.Json
