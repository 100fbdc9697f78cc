import SecureLayout.Numeric.Power
import SecureLayout.Template.Arithmetic
import SecureLayout.Text.Case
import SecureLayout.Text.Replace

/-!
Filters and tests. Each takes a value and arguments and either gives a value or says what is wrong.
-/

namespace SecureLayout.Template

open Numeric

/-- Arguments by position and by name, in the order of the names. -/
structure Args where
  positional : List Value := []
  named : Entries Value := []
  deriving Repr, Inhabited

/-- How markup characters are written when a value is escaped. -/
def escapeMarkup (c : Char) : List Char :=
  match c with
  | '<' => "&lt;".toList
  | '>' => "&gt;".toList
  | '&' => "&amp;".toList
  | '"' => "&quot;".toList
  | '\'' => "&#x27;".toList
  | '/' => "&#x2f;".toList
  | c => [c]

namespace Value

/-- Kinds that are printed without escaping. -/
def isPlainKind (v : Value) : Bool :=
  v.kind == .undefined || v.kind == .none || v.kind == .bool || v.kind == .number

/-- The text of a value as it is printed; what is not markup yet is escaped if asked for. -/
def printed (objects : Nat → List Char) (escape : Bool) (v : Value) : List Char :=
  if !escape || v.isSafe || v.isPlainKind then v.render objects
  else (v.render objects).flatMap escapeMarkup

end Value

namespace Filter

open Value

/-- What filters may look at beside their arguments. -/
structure Setting where
  /-- Text of values by reference. -/
  objects : Nat → List Char
  /-- Whether what is printed is escaped. -/
  escape : Bool

variable (s : Setting)

def tooMany : Error := { kind := .tooManyArguments }

def missing : Error := { kind := .missingArgument }

/-- An argument that is wanted as text; any value has a text, but not a missing one. -/
def textArg (v : Value) : Except Error (List Char) :=
  if v.isMissing then .error .undefinedValue else .ok (v.render s.objects)

def toText (cs : List Char) : Value := plainText (String.ofList cs)

/-- At most `n` arguments by position and none by name. -/
def atMost (n : Nat) (a : Args) : Except Error Unit :=
  if n < a.positional.length + (if a.named.isEmpty then 0 else 1) then .error tooMany else .ok ()

def boolArg : Option Value → Except Error Bool
  | Option.none => .ok false
  | some (.bool b) => .ok b
  | some (.undefined false) => .error .undefinedValue
  | some .none => .ok false
  | some v => .error (.invalid ("cannot convert " ++ v.kind.describe ++ " to bool"))

def length? : Value → Option Nat
  | text s _ => some s.length
  | list vs => some vs.length
  | iterable vs => some vs.length
  | map es => some es.length
  | _ => Option.none

def length (v : Value) : Except Error Value :=
  match length? v with
  | some n => .ok (int n)
  | Option.none => .error (.invalid ("cannot calculate length of value of type " ++ v.kind.describe))

def default (v : Value) (a : Args) : Except Error Value := do
  atMost 2 a
  let other := (a.positional.head?).getD (plainText "")
  if v.isUndefined then .ok other
  else if (← boolArg (a.positional[1]?)) && !v.isTrue then .ok other
  else .ok v

/-- What stands between joined items. -/
def separator (a : Args) : Except Error (List Char) :=
  match a.positional.head? with
  | some x => textArg s x
  | Option.none => .ok []

/-- Texts of the items with a separator between them. -/
def join (v : Value) (a : Args) : Except Error Value := do
  atMost 1 a
  let sep ← separator s a
  match iterate v with
  | .error e =>
    if v.isMissing then .error e
    else .error (.invalid ("cannot join value of type " ++ v.kind.describe))
  | .ok vs => .ok (toText (List.intercalate sep (vs.map fun x => x.render s.objects)))

def first (v : Value) : Except Error Value :=
  match v with
  | text s _ => .ok ((s.toList.head?.map fun c => plainText (String.singleton c)).getD (undefined false))
  | list vs => .ok (vs.head?.getD (undefined false))
  | iterable vs => .ok (vs.head?.getD (undefined false))
  | map es => .ok ((es.head?.map (·.1)).getD (undefined false))
  | _ => .error (.invalid "cannot get first item from value")

def last (v : Value) : Except Error Value :=
  match v with
  | text s _ => .ok ((s.toList.getLast?.map fun c => plainText (String.singleton c)).getD (undefined false))
  | list vs => .ok (vs.getLast?.getD (undefined false))
  | iterable vs => .ok (vs.getLast?.getD (undefined false))
  | _ => .error (.invalid "cannot get last item from value")

/-- Without an argument blanks are trimmed, otherwise the characters of the argument. -/
def trim (v : Value) (a : Args) : Except Error Value := do
  atMost 1 a
  let cs ← textArg s v
  match a.positional.head? with
  | Option.none => .ok (toText (Text.trim cs))
  | some .none => .ok (toText (Text.trim cs))
  | some x =>
    let set ← textArg s x
    .ok (toText (Text.dropTail set.contains (cs.dropWhile set.contains)))

def replace (v : Value) (a : Args) : Except Error Value := do
  let cs ← textArg s v
  match a.positional with
  | [old, new] =>
    atMost 2 a
    .ok (toText (Text.replaceAll (← textArg s old) (← textArg s new) cs))
  | _ :: _ :: _ :: _ => .error tooMany
  | _ => .error missing

def reverse (v : Value) : Except Error Value :=
  match v with
  | undefined _ => .ok v
  | .none => .ok v
  | text s _ => .ok (plainText (String.ofList s.toList.reverse))
  | list vs => .ok (list vs.reverse)
  | iterable vs => .ok (iterable vs.reverse)
  | map es => .ok (iterable (es.map (·.1)).reverse)
  | v => .error (.invalid ("cannot reverse values of type " ++ v.kind.describe))

def escape (v : Value) : Value :=
  if v.isSafe then v else safeText (String.ofList (v.printed s.objects true))

/-- Texts compare without regard to case unless asked otherwise. -/
def sortKey (caseSensitive : Bool) (v : Value) : Value :=
  match v with
  | text s _ => if caseSensitive then v else plainText (String.ofList (Text.toLower s.toList))
  | v => v

def namedFlag (a : Args) (name : String) : Except Error Bool :=
  match Entries.get? name a.named with
  | Option.none => .ok false
  | some (.bool b) => .ok b
  | some v => .error (.invalid ("cannot convert " ++ v.kind.describe ++ " to bool"))

/-- A dotted path into an item. -/
def attrPath (path : String) (v : Value) : Value :=
  (Text.splitOnChar '.' path.toList).foldl (fun v step =>
    let name := String.ofList step
    let found := match v with
      | list _ => (name.toNat?.bind fun n => item? v (int n))
      | v => attr? v name
    found.getD (undefined false)) v

/-- Items of a value that is wanted as a list. -/
def asList (v : Value) : Except Error (List Value) :=
  match iterate v with
  | .ok vs => .ok vs
  | .error e => if v.isMissing then .error e else .error (.invalid "cannot convert value to list")

/-- Only the given names are known. -/
def onlyNamed (names : List String) (a : Args) : Except Error Unit :=
  match (Entries.keys a.named).find? (· ∉ names) with
  | some k => .error { kind := .tooManyArguments, detail := some ("unknown keyword argument '" ++ k ++ "'") }
  | Option.none => .ok ()

def sort (v : Value) (a : Args) : Except Error Value := do
  if !a.positional.isEmpty then .error tooMany
  onlyNamed ["attribute", "case_sensitive", "reverse"] a
  let vs ← asList v
  let caseSensitive ← namedFlag a "case_sensitive"
  let key := match Entries.get? "attribute" a.named with
    | some (.text path _) => fun v => sortKey caseSensitive (attrPath path v)
    | _ => sortKey caseSensitive
  let sorted := vs.mergeSort fun x y => (key x).cmp (key y) != .gt
  if ← namedFlag a "reverse" then .ok (list sorted.reverse) else .ok (list sorted)

def toList (v : Value) : Except Error Value :=
  return list (← asList v)

def toString (v : Value) : Except Error Value :=
  if v.isMissing then .error .undefinedValue
  else
    match v with
    | text _ _ => .ok v
    | v => .ok (toText (v.render s.objects))

/-- A decimal integer with an optional sign. -/
def parseInt? (cs : List Char) : Option Int :=
  let digits (r : List Char) : Option Nat :=
    if r.isEmpty then Option.none
    else r.foldlM (fun n c => if c.isDigit then some (10 * n + (c.toNat - 48)) else Option.none) 0
  (match cs with
    | '-' :: r => (digits r).map fun n => -(n : Int)
    | '+' :: r => (digits r).map fun n => (n : Int)
    | r => (digits r).map fun n => (n : Int)).filter isWord128

/-- Digits with at most one point. -/
def splitMantissa (cs : List Char) : Option (List Char × List Char) :=
  let whole := cs.takeWhile Char.isDigit
  match cs.dropWhile Char.isDigit with
  | [] => some (whole, [])
  | '.' :: r => if r.all Char.isDigit then some (whole, r) else Option.none
  | _ => Option.none

/-- A decimal number with an optional sign, point and exponent, or a name of infinity or NaN. -/
def parseFloat? (cs : List Char) : Option Double :=
  let (negative, r) : Bool × List Char :=
    match cs with
    | '-' :: r => (true, r)
    | '+' :: r => (false, r)
    | r => (false, r)
  let lower := String.ofList (r.map Char.toLower)
  let magnitude : Option Double :=
    if lower == "inf" || lower == "infinity" then some .infinity
    else if lower == "nan" then some .nan
    else do
      let mantissa := r.takeWhile fun c => c != 'e' && c != 'E'
      let exponent : Int ← match r.dropWhile fun c => c != 'e' && c != 'E' with
        | [] => some 0
        | _ :: e => parseInt? e
      let (whole, fraction) ← splitMantissa mantissa
      if whole.isEmpty && fraction.isEmpty then Option.none
      else
        let m := (whole ++ fraction).foldl (fun n c => 10 * n + (c.toNat - 48)) 0
        let e := exponent - (fraction.length : Int)
        if 400 < e then some (if m = 0 then .zero else .infinity)
        else if e < -((whole.length + fraction.length : Nat) : Int) - 400 then some .zero
        else some (Double.ofScientific m e)
  magnitude.map (Double.withSign negative)

/-- A double brought into the words of 128 bits, toward zero. -/
def truncated (x : Double) : Int :=
  if x.isNaN then 0
  else if x.isInfinite then if x.negative then -(Numeric.twoTo 127) else Numeric.twoTo 127 - 1
  else
    let n := x.truncate
    if n < -(Numeric.twoTo 127) then -(Numeric.twoTo 127) else if Numeric.twoTo 127 ≤ n then Numeric.twoTo 127 - 1 else n

def toInt (v : Value) : Except Error Value :=
  match v with
  | undefined false => .error .undefinedValue
  | undefined true => .ok (int 0)
  | .none => .ok (int 0)
  | .bool b => .ok (int (if b then 1 else 0))
  | int n => .ok (int n)
  | float x => .ok (int (truncated x))
  | text s _ =>
    match parseInt? s.toList with
    | some n => .ok (int n)
    | Option.none =>
      match parseFloat? s.toList with
      | some x => .ok (int (truncated x))
      | Option.none => .error (.invalid "invalid float literal")
  | v => .error (.invalid ("cannot convert " ++ v.kind.describe ++ " to integer"))

def toFloat (v : Value) : Except Error Value :=
  match v with
  | undefined false => .error .undefinedValue
  | undefined true => .ok (float .zero)
  | .none => .ok (float .zero)
  | .bool b => .ok (float (if b then .ofNat 1 else .zero))
  | int n => .ok (float (.ofInt n))
  | float x => .ok (float x)
  | text s _ =>
    match parseFloat? s.toList with
    | some x => .ok (float x)
    | Option.none => .error (.invalid "invalid float literal")
  | v => .error (.invalid ("cannot convert " ++ v.kind.describe ++ " to float"))

def items (v : Value) : Except Error Value :=
  match v with
  | map es => .ok (list (es.map fun e => list [e.1, e.2]))
  | undefined false => .error .undefinedValue
  | _ => .error (.invalid "cannot convert value into pair list")

/-- A filter without arguments. -/
def alone (a : Args) (r : Except Error Value) : Except Error Value := do
  atMost 0 a
  r

def apply (name : String) (v : Value) (a : Args) : Except Error Value :=
  match name with
  | "upper" => alone a (do return toText (Text.toUpper (← textArg s v)))
  | "lower" => alone a (do return toText (Text.toLower (← textArg s v)))
  | "length" => alone a (length v)
  | "count" => alone a (length v)
  | "default" => default v a
  | "d" => default v a
  | "join" => join s v a
  | "first" => alone a (first v)
  | "last" => alone a (last v)
  | "trim" => trim s v a
  | "replace" => replace s v a
  | "reverse" => alone a (reverse v)
  | "escape" => alone a (.ok (escape s v))
  | "e" => alone a (.ok (escape s v))
  | "safe" => alone a (do return safeText (String.ofList (← textArg s v)))
  | "sort" => sort v a
  | "list" => alone a (toList v)
  | "string" => alone a (toString s v)
  | "int" => alone a (toInt v)
  | "float" => alone a (toFloat v)
  | "items" => alone a (items v)
  | name => .error { kind := .unknownFilter, detail := some ("filter " ++ name ++ " is unknown") }

end Filter

namespace Test

open Value

/-- Whether an integer leaves the given remainder; other values do not. -/
def leaves (r : Int) (v : Value) : Bool :=
  match v.toInt? with
  | some n => n % 2 = r
  | Option.none => false

def apply (name : String) (v : Value) (a : Args) : Except Error Bool :=
  match name with
  | "defined" => do Filter.atMost 0 a; return !v.isUndefined
  | "undefined" => do Filter.atMost 0 a; return v.isUndefined
  | "none" => do Filter.atMost 0 a; return v.kind == .none
  | "odd" => do Filter.atMost 0 a; return leaves 1 v
  | "even" => do Filter.atMost 0 a; return leaves 0 v
  | name => .error { kind := .unknownTest, detail := some ("test " ++ name ++ " is unknown") }

end Test

/-- Natural arguments of a range are words of 32 bits. -/
def rangeArg (v : Value) : Except Error Nat :=
  if v.isMissing then .error .undefinedValue
  else
    match v.toInt? with
    | some n =>
      if 0 ≤ n && n < Numeric.twoTo 32 then .ok n.toNat
      else .error (.invalid ("cannot convert " ++ v.kind.describe ++ " to u32"))
    | none => .error (.invalid ("cannot convert " ++ v.kind.describe ++ " to u32"))

/-- Ranges have at most this many items. -/
def greatestRange : Nat := 100000

/-- The lower bound of a range, the upper one and the step. -/
def rangeArgs : List Value → Except Error (Nat × Nat × Nat)
  | [] => .error Filter.missing
  | [n] => do return (0, ← rangeArg n, 1)
  | [a, b] => do return (← rangeArg a, ← rangeArg b, 1)
  | [a, b, c] => do return (← rangeArg a, ← rangeArg b, ← rangeArg c)
  | _ => .error Filter.tooMany

/-- Numbers from a lower bound up to below an upper one, in steps. -/
def rangeOf (a : Args) : Except Error Value := do
  if !a.named.isEmpty then .error Filter.tooMany
  let (low, high, step) ← rangeArgs a.positional
  if step = 0 then .error (.invalid "cannot create range with step of 0")
  let count := (high - low + step - 1) / step
  if greatestRange < count then .error (.invalid "range has too many elements")
  else .ok (.iterable ((List.range count).map fun i => .int (low + i * step : Nat)))

end SecureLayout.Template
