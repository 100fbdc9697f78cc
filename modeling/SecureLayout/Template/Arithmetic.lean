import SecureLayout.Numeric.Power
import SecureLayout.Template.Value
import SecureLayout.Text.Blank

/-!
Operators on values. Integers are words of 128 bits; as soon as one side is a double, both are taken as
doubles.
-/

namespace SecureLayout.Template

open Numeric

namespace Value

inductive NumberPair where
  | ints (a b : Int)
  | floats (x y : Double)

/-- Two operands as numbers of one sort. -/
def numbers? (a b : Value) : Option NumberPair :=
  match a, b with
  | float x, b => (toDouble? b).map (.floats x)
  | a, float y => (toDouble? a).map fun x => .floats x y
  | a, b => do return .ints (← a.toInt?) (← b.toInt?)

def impossible (op : String) (a b : Value) : Error :=
  .invalid ("tried to use " ++ op ++ " operator on unsupported types " ++ a.kind.describe ++ " and " ++
    b.kind.describe)

def failed (op : String) (a b : Value) : Error :=
  let objects : Nat → List Char := fun _ => []
  .invalid ("unable to calculate " ++ String.ofList (a.render objects) ++ " " ++ op ++ " " ++
    String.ofList (b.render objects))

/-- An integer result that fits, or else the fault of the operator. -/
def fitting (op : String) (a b : Value) (n : Int) : Except Error Value :=
  if isWord128 n then .ok (int n) else .error (failed op a b)

/-- The items of a sequence. -/
def sequence? : Value → Option (List Value)
  | list vs => some vs
  | iterable vs => some vs
  | _ => Option.none

def add (a b : Value) : Except Error Value :=
  match a.sequence?, b.sequence? with
  | some x, some y => .ok (iterable (x ++ y))
  | _, _ =>
    match a, b with
    | text s _, text t _ => .ok (plainText (s ++ t))
    | a, b =>
      match numbers? a b with
      | some (.ints x y) => fitting "+" a b (x + y)
      | some (.floats x y) => .ok (float (.ofFloat (x.toFloat + y.toFloat)))
      | Option.none => .error (impossible "+" a b)

def sub (a b : Value) : Except Error Value :=
  match numbers? a b with
  | some (.ints x y) => fitting "-" a b (x - y)
  | some (.floats x y) => .ok (float (.ofFloat (x.toFloat - y.toFloat)))
  | Option.none => .error (impossible "-" a b)

/-- A length of repeated text or items that is still made. -/
def greatestRepetition : Nat := 10000000

def repeatText (s : String) (n : Int) : Except Error Value :=
  if s.utf8ByteSize * n.toNat ≤ greatestRepetition then
    .ok (plainText (String.ofList (List.replicate n.toNat s.toList).flatten))
  else .error (.invalid "string is too long")

def repeatItems (vs : List Value) (n : Int) : Except Error Value :=
  if vs.length * n.toNat ≤ greatestRepetition then .ok (iterable (List.replicate n.toNat vs).flatten)
  else .error (.invalid "list is too long")

/-- A count is an integer that is not negative. -/
def toCount? (v : Value) : Option Int :=
  v.toIndex?.filter fun n => 0 ≤ n

def mul (a b : Value) : Except Error Value :=
  match a, b, a.toCount?, b.toCount? with
  | text s _, _, _, some n => repeatText s n
  | _, text s _, some n, _ => repeatText s n
  | list vs, _, _, some n => repeatItems vs n
  | _, list vs, some n, _ => repeatItems vs n
  | iterable vs, _, _, some n => repeatItems vs n
  | _, iterable vs, some n, _ => repeatItems vs n
  | a, b, _, _ =>
    match numbers? a b with
    | some (.ints x y) => fitting "*" a b (x * y)
    | some (.floats x y) => .ok (float (.ofFloat (x.toFloat * y.toFloat)))
    | Option.none => .error (impossible "*" a b)

/-- Division always gives a double. -/
def div (a b : Value) : Except Error Value :=
  match a.toDouble?, b.toDouble? with
  | some x, some y => .ok (float (.ofFloat (x.toFloat / y.toFloat)))
  | _, _ => .error (impossible "/" a b)

/-- The quotient whose remainder is not negative. -/
def floorDiv (a b : Value) : Except Error Value :=
  match numbers? a b with
  | some (.ints x y) => if y = 0 then .error (failed "//" a b) else fitting "//" a b (x / y)
  | some (.floats x y) => .ok (float (Double.divEuclid x y))
  | Option.none => .error (impossible "//" a b)

def rem (a b : Value) : Except Error Value :=
  match numbers? a b with
  | some (.ints x y) => if y = 0 then .error (failed "%" a b) else fitting "%" a b (x % y)
  | some (.floats x y) => .ok (float (Double.remEuclid x y))
  | Option.none => .error (impossible "%" a b)

/-- Powers with an exponent above this leave the range of integers unless the base is small. -/
def powInt? (x : Int) (n : Int) : Option Int :=
  if n < 0 || Numeric.twoTo 32 ≤ n then Option.none
  else if x = 0 || x = 1 then some (if n = 0 then 1 else x)
  else if x = -1 then some (if n % 2 = 0 then 1 else -1)
  else if 128 < n then Option.none
  else (some (Int.pow x n.toNat)).filter isWord128

def pow (a b : Value) : Except Error Value :=
  match numbers? a b with
  | some (.ints x y) =>
    match powInt? x y with
    | some n => .ok (int n)
    | Option.none => .error (failed "**" a b)
  | some (.floats x y) => .ok (float (.ofFloat (Float.pow x.toFloat y.toFloat)))
  | Option.none => .error (impossible "**" a b)

def negate (a : Value) : Except Error Value :=
  match a with
  | float x => .ok (float x.neg)
  | int n =>
    if n = Numeric.twoTo 127 || isWord128 (-n) && isWord128 n then .ok (int (-n))
    else .error (.invalid "overflow")
  | _ => .error { kind := .invalidOperation }

/-! ### Items and attributes -/

/-- The position that an index means in a sequence; negative ones count from the end. -/
def position? (length : Nat) (i : Int) : Option Nat :=
  if 0 ≤ i then some i.toNat
  else if i.natAbs ≤ length then some (length - i.natAbs) else Option.none

def itemAt? (vs : List Value) (key : Value) : Option Value :=
  (key.toIndex?.bind (position? vs.length)).bind fun i => vs[i]?

/-- The value under a key. -/
def item? (v key : Value) : Option Value :=
  match v with
  | map es => lookup? key es
  | list vs => itemAt? vs key
  | iterable vs => itemAt? vs key
  | text s _ =>
    let cs := s.toList
    ((key.toIndex?.bind (position? cs.length)).bind fun i => cs[i]?).map fun c =>
      plainText (String.singleton c)
  | _ => Option.none

def attr? (v : Value) (name : String) : Option Value :=
  match v with
  | map es => lookup? (plainText name) es
  | _ => Option.none

/-- What reading from a value gives when nothing is there: a fault if the value is missing itself. -/
def orUndefined (v : Value) (found : Option Value) : Except Error Value :=
  match found with
  | some x => .ok x
  | Option.none => if v.isUndefined then .error .undefinedValue else .ok (undefined false)

/-- A value that is iterated over; texts give their characters, maps their keys. -/
def iterate (v : Value) : Except Error (List Value) :=
  match v with
  | undefined false => .error .undefinedValue
  | undefined true => .ok []
  | none => .ok []
  | text s _ => .ok (s.toList.map fun c => plainText (String.singleton c))
  | list vs => .ok vs
  | iterable vs => .ok vs
  | map es => .ok (es.map (·.1))
  | v => .error (.invalid (v.kind.describe ++ " is not iterable"))

/-! ### Slices -/

/-- A bound of a slice: absent for none, otherwise an integer. -/
def bound (v : Value) : Except Error (Option Int) :=
  match v with
  | none => .ok Option.none
  | v =>
    match v.toIndex? with
    | some n => .ok (some n)
    | Option.none => .error (.invalid ("cannot convert " ++ v.kind.describe ++ " to i64"))

/-- Brings a bound into the range from `low` to `high`; negative ones count from the end. -/
def clampBound (length low high : Int) (n : Int) : Int :=
  let n := if n < 0 then n + length else n
  if n < low then low else if high < n then high else n

/-- Positions from `start` on in steps, as long as they lie before `stop`. -/
def positions (start stop step : Int) : Nat → List Nat
  | 0 => []
  | fuel + 1 =>
    if (0 < step && start < stop) || (step < 0 && stop < start) then
      start.toNat :: positions (start + step) stop step fuel
    else []

/-- Items of a list at the positions of a slice. -/
def sliceItems {α : Type} (xs : List α) (start stop : Option Int) (step : Int) : List α :=
  let n : Int := xs.length
  let (low, high) : Int × Int := if 0 < step then (0, n) else (-1, n - 1)
  let first := (start.map (clampBound n low high)).getD (if 0 < step then low else high)
  let last := (stop.map (clampBound n low high)).getD (if 0 < step then high else low)
  let a := xs.toArray
  (positions first last step (xs.length + 1)).filterMap fun i => a[i]?

def slice (v start stop step : Value) : Except Error Value := do
  if v.isMissing then .error .undefinedValue
  let start ← bound start
  let stop ← bound stop
  let step := (← bound step).getD 1
  if step = 0 then .error (.invalid "cannot slice by step size of 0")
  match v with
  | text s _ => .ok (plainText (String.ofList (sliceItems s.toList start stop step)))
  | undefined _ => .ok (list [])
  | none => .ok (list [])
  | list vs => .ok (list (sliceItems vs start stop step))
  | iterable vs => .ok (iterable (sliceItems vs start stop step))
  | v => .error (.invalid ("value of type " ++ v.kind.describe ++ " cannot be sliced"))

/-! ### Comparisons -/

/-- Whether a value is in a text, among the keys of a map or the items of a sequence. -/
def contains (objects : Nat → List Char) (container v : Value) : Except Error Bool :=
  match container with
  | undefined false => .error .undefinedValue
  | undefined true => .ok false
  | text s _ => .ok (Text.splitAtMark (v.render objects) s.toList).isSome
  | map es => .ok (lookup? v es).isSome
  | list vs => .ok (vs.any (equal v))
  | iterable vs => .ok (vs.any (equal v))
  | object _ _ => .ok false
  | function _ => .ok false
  | _ => .error (.invalid "cannot perform a containment check on this value")

def compare (objects : Nat → List Char) (op : Comparison) (a b : Value) : Except Error Bool :=
  match op with
  | .eq => .ok (equal a b)
  | .ne => .ok (!equal a b)
  | .lt => .ok (cmp a b == .lt)
  | .le => .ok (cmp a b != .gt)
  | .gt => .ok (cmp a b == .gt)
  | .ge => .ok (cmp a b != .lt)
  | .isIn => contains objects b a
  | .notIn => do return !(← contains objects b a)

/-- Both texts, one after the other. -/
def concat (objects : Nat → List Char) (a b : Value) : Value :=
  plainText (String.ofList (a.render objects ++ b.render objects))

def binary (objects : Nat → List Char) (op : BinaryOp) (a b : Value) : Except Error Value :=
  match op with
  | .add => add a b
  | .sub => sub a b
  | .mul => mul a b
  | .div => div a b
  | .floorDiv => floorDiv a b
  | .rem => rem a b
  | .pow => pow a b
  | .concat => .ok (concat objects a b)
  | .and => .ok b
  | .or => .ok b

end Value

end SecureLayout.Template
