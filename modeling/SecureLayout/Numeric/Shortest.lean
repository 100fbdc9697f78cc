import SecureLayout.Numeric.Double
import SecureLayout.Numeric.Power

/-!
Decimal text of doubles. `shortest` gives the fewest digits that read back as the number; a
`Layout` says how digits and exponent are written, so that every format is one value of it.
-/

namespace SecureLayout.Numeric

/-- A positive decimal `digits · 10 ^ power`. -/
structure Decimal where
  digits : Nat
  power : Int
  deriving DecidableEq, Repr

namespace Decimal

/-- Digits of a natural in base ten; `0` has one. -/
def digitCount (n : Nat) : Nat :=
  (Nat.toDigits 10 n).length

/-- The greatest `e` with `10 ^ e ≤ num / den`, for a positive ratio. -/
def floorLog10 (num den : Nat) : Int :=
  if den ≤ num then (digitCount (num / den) : Int) - 1
  else
    let l := digitCount (den / num)
    if den ≤ num * Numeric.tenTo (l - 1) then -((l : Int) - 1) else -(l : Int)

/-- Numerator and denominator of a decimal. -/
def ratio (d : Decimal) : Nat × Nat :=
  match d.power with
  | .ofNat p => (d.digits * Numeric.tenTo p, 1)
  | .negSucc p => (d.digits, Numeric.tenTo (p + 1))

def le (a b : Nat × Nat) : Bool :=
  a.1 * b.2 ≤ b.1 * a.2

def lt (a b : Nat × Nat) : Bool :=
  a.1 * b.2 < b.1 * a.2

/-- Drops zeros from the end, at most `fuel` of them. -/
def strip : Nat → Decimal → Decimal
  | 0, d => d
  | fuel + 1, d =>
    if d.digits % 10 = 0 && d.digits ≠ 0 then strip fuel ⟨d.digits / 10, d.power + 1⟩ else d

end Decimal

/-- The reals that round to a double: both ends, and whether they belong to it. -/
structure Interval where
  low : Nat × Nat
  high : Nat × Nat
  closed : Bool

namespace Interval

/-- Ends lie half way to the neighbours; they round to the even significand. -/
def ofDouble (x : Double) : Interval :=
  let m := x.significand
  let lower := if x.fractionField = 0 && 1 < x.exponentField then 4 * m - 1 else 4 * m - 2
  { low := Double.scale lower 4 x.exponent
    high := Double.scale (4 * m + 2) 4 x.exponent
    closed := m % 2 = 0 }

def contains (i : Interval) (a : Nat × Nat) : Bool :=
  if i.closed then Decimal.le i.low a && Decimal.le a i.high
  else Decimal.lt i.low a && Decimal.lt a i.high

end Interval

namespace Decimal

/-- The number's two neighbours on the grid of `10 ^ p`, the nearer first; of two equally near the even one. -/
def neighbours (num den : Nat) (p : Int) : List Decimal :=
  let (n, d) : Nat × Nat :=
    match p with
    | .ofNat k => (num, den * Numeric.tenTo k)
    | .negSucc k => (num * Numeric.tenTo (k + 1), den)
  let below : Decimal := ⟨n / d, p⟩
  let above : Decimal := ⟨n / d + 1, p⟩
  let twice := 2 * (n % d)
  if twice < d || (twice = d && (n / d) % 2 = 0) then [below, above] else [above, below]

/-- Tries grids with more and more digits; the first grid with a neighbour in the interval wins. -/
def search (i : Interval) (num den : Nat) (top : Int) : Nat → Nat → Decimal
  | 0, _ => ⟨0, 0⟩
  | fuel + 1, n =>
    let p := top + 1 - (n : Int)
    match (neighbours num den p).find? fun d => d.digits ≠ 0 && i.contains d.ratio with
    | some d => d
    | none => search i num den top fuel (n + 1)

end Decimal

/-- The fewest digits that read back as a finite number other than zero, and of those the nearest. -/
def Double.shortest (x : Double) : Decimal :=
  let (num, den) := x.ratio
  Decimal.strip 400 (Decimal.search (.ofDouble x) num den (Decimal.floorLog10 num den) 18 1)

/-- How a decimal is laid out: which exponents stay positional, and how the others are marked. -/
structure Layout where
  /-- Least exponent of the leading digit that is written positionally; `none` for no bound. -/
  least : Option Int
  /-- Greatest exponent of the leading digit that is written positionally; `none` for no bound. -/
  greatest : Option Int
  /-- A plus sign before exponents that are not negative. -/
  plus : Bool
  /-- Whole numbers end in `.0`. -/
  pointZero : Bool

namespace Layout

def digitText (n : Nat) : List Char :=
  Nat.toDigits 10 n

/-- Digits with the point placed so that the leading digit has exponent `e`. -/
def positional (l : Layout) (ds : List Char) (e : Int) : List Char :=
  match e with
  | .negSucc k => '0' :: '.' :: (List.replicate k '0' ++ ds)
  | .ofNat k =>
    if ds.length ≤ k + 1 then
      ds ++ List.replicate (k + 1 - ds.length) '0' ++ (if l.pointZero then ['.', '0'] else [])
    else ds.take (k + 1) ++ '.' :: ds.drop (k + 1)

/-- One digit before the point, then the exponent. -/
def scientific (l : Layout) (ds : List Char) (e : Int) : List Char :=
  let mantissa :=
    match ds with
    | [] => []
    | [d] => [d]
    | d :: r => d :: '.' :: r
  let sign := if e < 0 then ['-'] else if l.plus then ['+'] else []
  mantissa ++ 'e' :: (sign ++ digitText e.natAbs)

/-- Text of a finite number; zero keeps its sign. -/
def render (l : Layout) (x : Double) : List Char :=
  let body :=
    if x.isZero then '0' :: (if l.pointZero then ['.', '0'] else [])
    else
      let d := x.shortest
      let ds := digitText d.digits
      let e := d.power + (ds.length : Int) - 1
      let inside := (l.least.all fun b => decide (b ≤ e)) && (l.greatest.all fun b => decide (e ≤ b))
      if inside then l.positional ds e else l.scientific ds e
  if x.negative then '-' :: body else body

/-- Numbers of a JSON text: positional from 1e-5 up to below 1e16. -/
def json : Layout := ⟨some (-5), some 15, true, true⟩

/-- Numbers printed by a template: always positional. -/
def plain : Layout := ⟨none, none, false, true⟩

/-- Numbers inside a printed list or map: positional from 1e-4 up to below 1e16. -/
def inner : Layout := ⟨some (-4), some 15, false, true⟩

end Layout

end SecureLayout.Numeric
