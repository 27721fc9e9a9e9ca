/-!
# Numbers in binary64

A `Binary64` is the bit pattern of an IEEE 754 double. Arithmetic on it is exact rational arithmetic
in `Nat` followed by one rounding.

* `Binary64.ofRatio` is the one rounding: to nearest, ties to even, with overflow to infinity.
* `Binary64.ofDecimal` reads decimal digits; `Binary64.mul` and `Binary64.div` round once each.
* `Binary64.same` is the equality of document nodes: zeros are equal, and so are all NaNs.
-/

namespace DocDrive

/-- A double by its bits: sign, eleven bits of exponent, fifty-two of fraction. -/
structure Binary64 where
  bits : UInt64
  deriving DecidableEq, Repr

namespace Binary64

/-! ## Parts -/

def isNegative (x : Binary64) : Bool := x.bits.toNat ≥ Nat.pow 2 63

/-- The bits below the sign. -/
def magnitudeBits (x : Binary64) : Nat := x.bits.toNat % Nat.pow 2 63

/-- The bits of positive infinity; larger ones are NaNs. -/
def infinityBits : Nat := 0x7FF * Nat.pow 2 52

def isNaN (x : Binary64) : Bool := x.magnitudeBits > infinityBits

def isInfinite (x : Binary64) : Bool := x.magnitudeBits == infinityBits

def isFinite (x : Binary64) : Bool := x.magnitudeBits < infinityBits

def isZero (x : Binary64) : Bool := x.magnitudeBits == 0

/-- A double from a sign and the bits below it. -/
def ofMagnitude (negative : Bool) (magnitude : Nat) : Binary64 :=
  ⟨UInt64.ofNat (magnitude + if negative then Nat.pow 2 63 else 0)⟩

def infinity (negative : Bool) : Binary64 := ofMagnitude negative infinityBits

def nan : Binary64 := ofMagnitude false (infinityBits + Nat.pow 2 51)

/-- The smallest power of two that a fraction counts. -/
def minExponent : Int := -1074

/-- The absolute value of a finite double as `(m, q)`, for `m · 2^q`. -/
def significand (x : Binary64) : Nat × Int :=
  let exponent : Nat := x.magnitudeBits / Nat.pow 2 52
  let fraction := x.magnitudeBits % Nat.pow 2 52
  if exponent = 0 then (fraction, minExponent)
  else (fraction + Nat.pow 2 52, (exponent : Int) - 1 + minExponent)

/-- Equality of numbers in documents. -/
def same (x y : Binary64) : Bool :=
  (x.isNaN && y.isNaN) || (x.isZero && y.isZero) || (!x.isNaN && x.bits == y.bits)

/-! ## Rounding -/

/-- `num / den` to the nearest integer, a half to the even neighbour. -/
def roundDiv (num den : Nat) : Nat :=
  let q := num / den
  let r := num % den
  if 2 * r > den ∨ (2 * r = den ∧ q % 2 = 1) then q + 1 else q

/-- `num / den · 2^(-e)` as a ratio. -/
def scaleRatio (num den : Nat) (e : Int) : Nat × Nat :=
  if e ≥ 0 then (num, den * Nat.pow 2 e.toNat) else (num * Nat.pow 2 (-e).toNat, den)

/-- The exponent at which a positive ratio has fifty-three bits before the point, but no less than
the smallest. -/
def exponentOf (num den : Nat) : Int :=
  let guess : Int := (Nat.log2 num : Int) - (Nat.log2 den : Int) - 52
  let (n, d) := scaleRatio num den guess
  let e := if n < d * Nat.pow 2 52 then guess - 1 else guess
  max e minExponent

/-- The double nearest to a ratio of naturals, with a sign. -/
def ofRatio (negative : Bool) (num den : Nat) : Binary64 :=
  if num = 0 then ofMagnitude negative 0
  else
    let e := exponentOf num den
    let (n, d) := scaleRatio num den e
    let magnitude := (e - minExponent).toNat * Nat.pow 2 52 + roundDiv n d
    ofMagnitude negative (min magnitude infinityBits)

def ofNat (n : Nat) : Binary64 := ofRatio false n 1

/-- Decimal numbers at or above `10^maxDecimal` round to infinity, those below `10^-maxDecimal` to
zero. -/
def maxDecimal : Int := 400

/-- More decimal digits than any double has, or any point halfway between two. -/
def maxDigits : Nat := 800

/-- The value of decimal digits. The first `maxDigits` are kept and one more, which tells whether
anything but zeros was left out: the result counts units of a tenth of the last digit kept. -/
def leading (digits : List Nat) : Nat :=
  let rest := if (digits.drop maxDigits).any (· ≠ 0) then 1 else 0
  (digits.take maxDigits).foldl (fun n d => n * 10 + d) 0 * 10 + rest

/-- The double nearest to a decimal number, given by its digits and the exponent of ten of the
last one. -/
def ofDecimal (negative : Bool) (digits : List Nat) (e : Int) : Binary64 :=
  let digits := digits.dropWhile (· == 0)
  let point : Int := digits.length + e
  if digits.isEmpty then ofMagnitude negative 0
  else if point > maxDecimal then infinity negative
  else if point < -maxDecimal then ofMagnitude negative 0
  else
    let unit : Int := point - min digits.length maxDigits - 1
    if unit ≥ 0 then ofRatio negative (leading digits * Nat.pow 10 unit.toNat) 1
    else ofRatio negative (leading digits) (Nat.pow 10 (-unit).toNat)

/-! ## Arithmetic on finite positive doubles -/

def ratio (x : Binary64) : Nat × Nat :=
  let (m, q) := x.significand
  if q ≥ 0 then (m * Nat.pow 2 q.toNat, 1) else (m, Nat.pow 2 (-q).toNat)

/-- The rounded product of two absolute values. -/
def mul (x y : Binary64) : Binary64 :=
  let (a, b) := x.ratio
  let (c, d) := y.ratio
  ofRatio false (a * c) (b * d)

/-- The rounded quotient of two absolute values. -/
def div (x y : Binary64) : Binary64 :=
  let (a, b) := x.ratio
  let (c, d) := y.ratio
  ofRatio false (a * d) (b * c)

/-- The same magnitude with a given sign. -/
def withSign (x : Binary64) (negative : Bool) : Binary64 := ofMagnitude negative x.magnitudeBits

end Binary64

end DocDrive
