import DocDrive.Number.Binary64

/-!
# Shortest decimal text

`Binary64.shortest` finds the fewest decimal digits that read back as the same double, and among
those the nearest to its value, a tie going to the even digit. `Binary64.text` writes them in
positional form near one and with an exponent elsewhere.
-/

namespace DocDrive.Binary64

/-! ## Digits -/

/-- A positive rational between two others: the reals that round to a double, scaled to naturals.
`low` and `high` belong to the interval when `closed` holds. -/
structure Interval where
  low : Nat
  value : Nat
  high : Nat
  unit : Nat
  closed : Bool

/-- The reals that round to a finite positive double. -/
def interval (x : Binary64) : Interval :=
  let (m, q) := x.significand
  let narrow := m = Nat.pow 2 52 ∧ q > minExponent
  let low := if narrow then 4 * m - 1 else 4 * m - 2
  let scale := if q ≥ 0 then Nat.pow 2 q.toNat else 1
  let unit := if q ≥ 0 then 4 else 4 * Nat.pow 2 (-q).toNat
  ⟨low * scale, 4 * m * scale, (4 * m + 2) * scale, unit, m % 2 = 0⟩

/-- `n · 10^k / unit` lies in the interval, where `p / s` is `10^k`. -/
def Interval.holds (i : Interval) (n p s : Nat) : Bool :=
  let x := n * p * i.unit
  if i.closed then i.low * s ≤ x ∧ x ≤ i.high * s else i.low * s < x ∧ x < i.high * s

def powerOfTen (k : Int) : Nat × Nat :=
  if k ≥ 0 then (Nat.pow 10 k.toNat, 1) else (1, Nat.pow 10 (-k).toNat)

/-- The largest `k` with `10^k ≤ num / den`, searched downward from `k` by `fuel` steps. -/
def floorLog10 (num den : Nat) : Nat → Int → Int
  | 0, k => k
  | fuel + 1, k =>
    let (p, s) := powerOfTen k
    if p * den ≤ num * s then k else floorLog10 num den fuel (k - 1)

/-- The point of the grid `10^k` that stands for the interval: of the two neighbours of the value,
the nearer one that lies in it, a tie going to the even one. -/
def Interval.point? (i : Interval) (k : Int) : Option Nat :=
  let (p, s) := powerOfTen k
  let num := i.value * s
  let den := i.unit * p
  let n := num / den
  let r := num % den
  let up := 2 * r > den ∨ (2 * r = den ∧ n % 2 = 1)
  let nearer := if up then n + 1 else n
  let farther := if up then n else n + 1
  if i.holds nearer p s then some nearer
  else if i.holds farther p s then some farther
  else none

/-- The first grid with a point, from `digits` digits upward. -/
def Interval.search (i : Interval) (top : Int) : Nat → Nat → Nat × Int
  | 0, digits => (i.value / i.unit, top - digits)
  | fuel + 1, digits =>
    let k := top - digits + 1
    match i.point? k with
    | some n => (n, k)
    | none => i.search top fuel (digits + 1)

/-- The fewest digits `n` and the exponent `k` such that `n · 10^k` reads back as a finite positive
double. -/
def shortest (x : Binary64) : Nat × Int :=
  let i := x.interval
  let top := floorLog10 i.value i.unit 700 310
  i.search top 18 1

/-- Digits without trailing zeros, which move into the exponent. -/
def trimZeros : Nat → Nat → Int → Nat × Int
  | 0, n, k => (n, k)
  | fuel + 1, n, k =>
    if n ≠ 0 ∧ n % 10 = 0 then trimZeros fuel (n / 10) (k + 1) else (n, k)

/-! ## Text -/

/-- The written form of numbers: digits are placed positionally while the point falls within
`positionalAbove` digits to the left and `positionalBelow` zeros to the right of them. -/
structure NumberFormat where
  positionalAbove : Int
  positionalBelow : Int

/-- Up to sixteen digits before the point, up to four zeros after it. -/
def documentFormat : NumberFormat := ⟨16, 4⟩

/-- Digits and an exponent of ten in a given form. -/
def layout (format : NumberFormat) (digits : List Char) (k : Int) : List Char :=
  let length : Int := digits.length
  let point := length + k
  let zeros (n : Int) := List.replicate n.toNat '0'
  if k ≥ 0 ∧ point ≤ format.positionalAbove then digits ++ zeros k ++ ['.', '0']
  else if 0 < point ∧ point ≤ format.positionalAbove then
    digits.take point.toNat ++ '.' :: digits.drop point.toNat
  else if -format.positionalBelow ≤ point ∧ point ≤ 0 then
    '0' :: '.' :: zeros (-point) ++ digits
  else
    let fraction := digits.drop 1
    let exponent := point - 1
    let sign := if exponent < 0 then ['-'] else []
    digits.take 1 ++ (if fraction.isEmpty then [] else '.' :: fraction) ++
      'e' :: sign ++ Nat.toDigits 10 exponent.natAbs

def text (x : Binary64) : List Char :=
  if x.isNaN then ".nan".toList
  else
    let sign := if x.isNegative then ['-'] else []
    if x.isInfinite then sign ++ ".inf".toList
    else if x.isZero then sign ++ "0.0".toList
    else
      let (n, k) := x.shortest
      let (n, k) := trimZeros 20 n k
      sign ++ layout documentFormat (Nat.toDigits 10 n) k

end DocDrive.Binary64
