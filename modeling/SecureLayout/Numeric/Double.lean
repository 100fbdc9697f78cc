import SecureLayout.Numeric.Power

/-!
Double-precision numbers by their 64 bits, with exact conversions from and to ratios of naturals.
No step of those computes with machine floats.
-/

namespace SecureLayout.Numeric

/-- An IEEE double, kept as its bits so that equality is decidable; a NaN equals itself here. -/
structure Double where
  bits : UInt64
  deriving DecidableEq, Hashable, Repr, Inhabited

namespace Double

def negative (x : Double) : Bool :=
  x.bits >>> 63 == 1

def exponentField (x : Double) : Nat :=
  ((x.bits >>> 52) &&& 0x7FF).toNat

def fractionField (x : Double) : Nat :=
  (x.bits &&& 0xFFFFFFFFFFFFF).toNat

def isFinite (x : Double) : Bool :=
  x.exponentField != 2047

def isNaN (x : Double) : Bool :=
  x.exponentField == 2047 && x.fractionField != 0

def isInfinite (x : Double) : Bool :=
  x.exponentField == 2047 && x.fractionField == 0

def isZero (x : Double) : Bool :=
  x.exponentField == 0 && x.fractionField == 0

/-- The significand `m` of a finite magnitude `m · 2 ^ exponent`. -/
def significand (x : Double) : Nat :=
  if x.exponentField = 0 then x.fractionField else Numeric.twoTo 52 + x.fractionField

/-- The exponent that goes with `significand`; subnormals share the least one. -/
def exponent (x : Double) : Int :=
  if x.exponentField = 0 then -1074 else (x.exponentField : Int) - 1075

/-- Numerator and denominator of a finite magnitude. -/
def ratio (x : Double) : Nat × Nat :=
  match x.exponent with
  | .ofNat e => (x.significand * Numeric.twoTo e, 1)
  | .negSucc e => (x.significand, Numeric.twoTo (e + 1))

def neg (x : Double) : Double :=
  ⟨x.bits ^^^ 0x8000000000000000⟩

def zero : Double := ⟨0⟩

def infinity : Double := ⟨0x7FF0000000000000⟩

def withSign (negative : Bool) (x : Double) : Double :=
  if negative then x.neg else x

/-- Nearest natural to `num / den`, a half to the even neighbour. -/
def roundDiv (num den : Nat) : Nat :=
  let q := num / den
  let r := num % den
  if 2 * r < den then q else if den < 2 * r then q + 1 else q + q % 2

/-- `num / den` scaled by `2 ^ k`, as a new ratio. -/
def scale (num den : Nat) : Int → Nat × Nat
  | .ofNat k => (num * Numeric.twoTo k, den)
  | .negSucc k => (num, den * Numeric.twoTo (k + 1))

/-- The magnitude `m · 2 ^ q` where `q` is at least -1074 and `m` at most `2 ^ 53`; infinity if too large. -/
def assemble (m : Nat) (q : Int) : Double :=
  if m < Numeric.twoTo 52 then ⟨UInt64.ofNat m⟩
  else
    let field := (q + 1074).toNat
    let word := (field + 1) * Numeric.twoTo 52 + (m - Numeric.twoTo 52)
    if word < 2047 * Numeric.twoTo 52 then ⟨UInt64.ofNat word⟩ else infinity

/-- The double nearest to `num / den`, a half to the even significand; infinity from half a unit above the greatest. -/
def ofRatio (num den : Nat) : Double :=
  if num = 0 || den = 0 then zero
  else
    let guess : Int := 52 + (den.log2 : Int) - (num.log2 : Int)
    let (n, d) := scale num den guess
    let k := if n / d < Numeric.twoTo 52 then guess + 1 else if Numeric.twoTo 53 ≤ n / d then guess - 1 else guess
    let k := min k 1074
    let (n, d) := scale num den k
    assemble (roundDiv n d) (-k)

def ofNat (n : Nat) : Double :=
  ofRatio n 1

def ofInt : Int → Double
  | .ofNat n => ofNat n
  | .negSucc n => (ofNat (n + 1)).neg

/-- Product of finite magnitudes, correctly rounded. -/
def mulMagnitude (x y : Double) : Double :=
  let (a, b) := x.ratio
  let (c, d) := y.ratio
  ofRatio (a * c) (b * d)

/-- Quotient of finite magnitudes, correctly rounded; the divisor is not zero. -/
def divMagnitude (x y : Double) : Double :=
  let (a, b) := x.ratio
  let (c, d) := y.ratio
  ofRatio (a * d) (b * c)

/-- The whole part of a finite magnitude. -/
def wholePart (x : Double) : Nat :=
  let (n, d) := x.ratio
  n / d

/-- Rounds a finite number toward zero. -/
def truncate (x : Double) : Int :=
  if x.negative then -(x.wholePart : Int) else x.wholePart

/-- The integer that a finite number equals, if it equals one. -/
def toInt? (x : Double) : Option Int :=
  let (n, d) := x.ratio
  if x.isFinite && n % d = 0 then some x.truncate else none

def toFloat (x : Double) : Float :=
  Float.ofBits x.bits

def ofFloat (x : Float) : Double :=
  ⟨x.toBits⟩

/-- `num / den · 10 ^ e`, correctly rounded. -/
def ofScientific (m : Nat) (e : Int) : Double :=
  match e with
  | .ofNat e => ofRatio (m * Numeric.tenTo e) 1
  | .negSucc e => ofRatio m (Numeric.tenTo (e + 1))

def nan : Double := ⟨0x7FF8000000000000⟩

/-- Remainder with the sign of the first operand, exact for finite numbers. -/
def remainder (x y : Double) : Double :=
  if !x.isFinite || y.isNaN || y.isZero then nan
  else if y.isInfinite then x
  else
    let (a, b) := x.ratio
    let (c, d) := y.ratio
    withSign x.negative (.ofRatio ((a * d) % (c * b)) (b * d))

/-- Remainder that is never negative. -/
def remEuclid (x y : Double) : Double :=
  let r := remainder x y
  if r.negative && !r.isZero then ofFloat (r.toFloat + y.toFloat.abs) else r

/-- The quotient that goes with `remEuclid`. -/
def divEuclid (x y : Double) : Double :=
  let q := x.toFloat / y.toFloat
  let q := if q < 0 then q.ceil else q.floor
  let r := remainder x y
  if r.negative && !r.isZero then ofFloat (if y.toFloat > 0 then q - 1 else q + 1) else ofFloat q

end Double

end SecureLayout.Numeric
