import SecureLayout.Json.Value
import SecureLayout.Numeric.Power
import SecureLayout.Numeric.Shortest
import SecureLayout.Template.Error
import SecureLayout.Template.Tree
import SecureLayout.Text.Quoted

/-!
Values that templates compute with. Data of a render come in by `ofJson`; props of components go out by `toJson`.
-/

namespace SecureLayout.Template

open Numeric

/-- Functions that every template may call. -/
inductive Builtin where
  | range
  | namespace_
  /-- Makes a placeholder. -/
  | component
  /-- Counts a loop body. -/
  | tick
  deriving DecidableEq, Repr

/-- What a value by reference is; the reference itself is a number. -/
inductive ObjectSort where
  | loop
  | namespace_
  | macro_
  deriving DecidableEq, Repr

inductive Value where
  /-- A silent one prints as nothing, any other is a fault where a value is needed. -/
  | undefined (silent : Bool)
  | none
  | bool (b : Bool)
  | int (n : Int)
  | float (x : Double)
  /-- Safe text is markup already and is not escaped again. -/
  | text (s : String) (safe : Bool)
  | list (items : List Value)
  /-- Values that come one after the other, such as a range. -/
  | iterable (items : List Value)
  /-- Entries in the order of their keys. -/
  | map (entries : List (Value × Value))
  | object (sort : ObjectSort) (ref : Nat)
  | function (f : Builtin)
  deriving Repr, Inhabited

/-- The kinds in their order; values of different kinds compare by it. -/
inductive Kind where
  | undefined
  | none
  | bool
  | number
  | text
  | list
  | map
  | iterable
  | plain
  deriving DecidableEq, Repr

/-- How a kind is called in complaints. -/
def Kind.describe : Kind → String
  | undefined => "undefined"
  | none => "none"
  | bool => "bool"
  | number => "number"
  | text => "string"
  | list => "sequence"
  | map => "map"
  | iterable => "iterator"
  | plain => "plain object"

def Kind.rank : Kind → Nat
  | undefined => 0
  | none => 1
  | bool => 2
  | number => 3
  | text => 4
  | list => 5
  | map => 6
  | iterable => 7
  | plain => 8

namespace Value

def kind : Value → Kind
  | undefined _ => .undefined
  | none => .none
  | bool _ => .bool
  | int _ => .number
  | float _ => .number
  | text _ _ => .text
  | list _ => .list
  | iterable _ => .iterable
  | map _ => .map
  | object .macro_ _ => .plain
  | object _ _ => .map
  | function _ => .plain

def isUndefined : Value → Bool
  | undefined _ => true
  | _ => false

/-- Undefined and not silent: using it as a value is a fault. -/
def isMissing : Value → Bool
  | undefined false => true
  | _ => false

def isSafe : Value → Bool
  | text _ safe => safe
  | _ => false

def plainText (s : String) : Value := text s false

def safeText (s : String) : Value := text s true

def ofLiteral : Literal → Value
  | .none => none
  | .bool b => bool b
  | .int n => int n
  | .float x => float x
  | .text s => plainText s

/-- Whether a value counts as true. -/
def isTrue : Value → Bool
  | undefined _ => false
  | none => false
  | bool b => b
  | int n => n != 0
  | float x => !x.isZero
  | text s _ => s != ""
  | list vs => !vs.isEmpty
  | iterable vs => !vs.isEmpty
  | map es => !es.isEmpty
  | object _ _ => true
  | function _ => true

/-- Truth of a value that must not be missing. -/
def truth (v : Value) : Except Error Bool :=
  if v.isMissing then .error .undefinedValue else .ok v.isTrue

/-! ### Numbers in values -/

/-- Signed words of 128 bits. -/
def isWord128 (n : Int) : Bool :=
  -(Numeric.twoTo 127) ≤ n && n < Numeric.twoTo 127

/-- Signed words of 64 bits. -/
def isWord64 (n : Int) : Bool :=
  -(Numeric.twoTo 63) ≤ n && n < Numeric.twoTo 63

/-- The integer that a value is or equals. -/
def toInt? : Value → Option Int
  | bool b => some (if b then 1 else 0)
  | int n => if isWord128 n then some n else Option.none
  | float x => x.toInt?.filter isWord64
  | _ => Option.none

/-- An integer that fits a signed word of 64 bits. -/
def toIndex? (v : Value) : Option Int :=
  v.toInt?.filter isWord64

def toDouble? : Value → Option Double
  | bool b => some (if b then .ofNat 1 else .zero)
  | int n => some (.ofInt n)
  | float x => some x
  | _ => Option.none

/-! ### Order and equality -/

/-- Order of doubles in which negative zero comes before zero and NaN last. -/
def compareDoubles (x y : Double) : Ordering :=
  let key (z : Double) : Int := if z.negative then -1 - (z.neg.bits.toNat : Int) else z.bits.toNat
  compareOfLessAndEq (key x) (key y)

/-- Exact order of an integer and a double. -/
def compareIntDouble (n : Int) (x : Double) : Ordering :=
  if x.isFinite then
    let (p, q) := x.ratio
    let p : Int := if x.negative then -(p : Int) else p
    compareOfLessAndEq (n * q) p
  else if x.negative then .gt else .lt

mutual

/-- Order of values: by kind first. -/
def cmp : Value → Value → Ordering
  | int a, int b => compareOfLessAndEq a b
  | int a, float b => compareIntDouble a b
  | float a, int b => (compareIntDouble b a).swap
  | float a, float b => compareDoubles a b
  | bool a, bool b => compareOfLessAndEq a.toNat b.toNat
  | text a _, text b _ => compareOfLessAndEq a b
  | list a, list b => cmpItems a b
  | iterable a, iterable b => cmpItems a b
  | map a, map b => cmpEntries a b
  | a, b => compareOfLessAndEq a.kind.rank b.kind.rank

def cmpItems : List Value → List Value → Ordering
  | [], [] => .eq
  | [], _ :: _ => .lt
  | _ :: _, [] => .gt
  | a :: r, b :: s => (cmp a b).then (cmpItems r s)

def cmpEntries : List (Value × Value) → List (Value × Value) → Ordering
  | [], [] => .eq
  | [], _ :: _ => .lt
  | _ :: _, [] => .gt
  | (k, a) :: r, (l, b) :: s => ((cmp k l).then (cmp a b)).then (cmpEntries r s)

end

/-- Doubles are equal as numbers: NaN to nothing, the zeros to each other. -/
def sameDouble (x y : Double) : Bool :=
  !x.isNaN && !y.isNaN && (x == y || (x.isZero && y.isZero))

mutual

/-- Equality of values: numbers by value, truth values as the numbers one and zero, sequences by their
items. -/
def equal : Value → Value → Bool
  | none, none => true
  | undefined _, undefined _ => true
  | bool a, bool b => a == b
  | bool a, int b => (a.toNat : Int) == b
  | int a, bool b => a == (b.toNat : Int)
  | bool a, float b => compareIntDouble a.toNat b == .eq && !b.isNaN
  | float a, bool b => compareIntDouble b.toNat a == .eq && !a.isNaN
  | int a, int b => a == b
  | int a, float b => compareIntDouble a b == .eq
  | float a, int b => compareIntDouble b a == .eq
  | float a, float b => sameDouble a b
  | text a _, text b _ => a == b
  | list a, list b => equalItems a b
  | list a, iterable b => equalItems a b
  | iterable a, list b => equalItems a b
  | iterable a, iterable b => equalItems a b
  | map a, map b => equalEntries a b
  | object s a, object t b => s == t && a == b
  | function f, function g => f == g
  | _, _ => false

def equalItems : List Value → List Value → Bool
  | [], [] => true
  | a :: r, b :: s => equal a b && equalItems r s
  | _, _ => false

def equalEntries : List (Value × Value) → List (Value × Value) → Bool
  | [], [] => true
  | (k, a) :: r, (l, b) :: s => equal k l && equal a b && equalEntries r s
  | _, _ => false

end

/-! ### Maps -/

/-- Looks an entry up; keys are the same when neither comes before the other. -/
def lookup? (key : Value) : List (Value × Value) → Option Value
  | [] => Option.none
  | (k, v) :: r => if cmp key k == .eq then some v else lookup? key r

/-- Adds an entry or replaces the one of that key. -/
def insert (key v : Value) : List (Value × Value) → List (Value × Value)
  | [] => [(key, v)]
  | (k, w) :: r =>
    match cmp key k with
    | .lt => (key, v) :: (k, w) :: r
    | .eq => (k, v) :: r
    | .gt => (k, w) :: insert key v r

/-- A map from entries in any order; of two with one key the later wins. -/
def mapOf (es : List (Value × Value)) : Value :=
  map (es.foldl (fun m e => insert e.1 e.2 m) [])

/-- A map of named values. -/
def ofEntries (es : Entries Value) : Value :=
  map (es.map fun e => (plainText e.1, e.2))

/-! ### Text of values -/

def renderDouble (l : Layout) (x : Double) : List Char :=
  if x.isNaN then "NaN".toList
  else if x.isInfinite then (if x.negative then "-inf" else "inf").toList
  else l.render x

def renderInt : Int → List Char
  | .ofNat n => Nat.toDigits 10 n
  | .negSucc n => '-' :: Nat.toDigits 10 (n + 1)

mutual

/-- Text of a value inside a list or a map: there texts are quoted. -/
def renderInner (objects : Nat → List Char) : Value → List Char
  | undefined _ => "undefined".toList
  | none => "None".toList
  | bool b => (if b then "True" else "False").toList
  | int n => renderInt n
  | float x => renderDouble .inner x
  | text s _ => Text.quote s.toList
  | list vs => '[' :: renderItems objects vs
  | iterable vs => '[' :: renderItems objects vs
  | map es => '\x7b' :: renderEntries objects es
  | object _ i => objects i
  | function _ => "<function>".toList

/-- Items and the closing bracket. -/
def renderItems (objects : Nat → List Char) : List Value → List Char
  | [] => [']']
  | v :: r =>
    renderInner objects v ++
      (match r with
        | [] => [']']
        | _ :: _ => ',' :: ' ' :: renderItems objects r)

def renderEntries (objects : Nat → List Char) : List (Value × Value) → List Char
  | [] => ['\x7d']
  | (k, v) :: r =>
    renderInner objects k ++ ':' :: ' ' :: (renderInner objects v ++
      (match r with
        | [] => ['\x7d']
        | _ :: _ => ',' :: ' ' :: renderEntries objects r))

end

/-- Text of a value by itself. -/
def render (objects : Nat → List Char) : Value → List Char
  | undefined _ => []
  | float x => renderDouble .plain x
  | text s _ => s.toList
  | v => renderInner objects v

/-! ### JSON -/

mutual

def ofJson : Json.Value → Value
  | .null => none
  | .bool b => bool b
  | .number (.int n) => int n
  | .number (.float x) => float x
  | .text s => plainText s
  | .list items => list (ofJsonItems items)
  | .object ms => map (ofJsonMembers ms)

def ofJsonItems : List Json.Value → List Value
  | [] => []
  | v :: r => ofJson v :: ofJsonItems r

def ofJsonMembers : List (String × Json.Value) → List (Value × Value)
  | [] => []
  | (k, v) :: r => (plainText k, ofJson v) :: ofJsonMembers r

end

/-- Integers that JSON text may hold: words of 64 bits, signed or not. -/
def isJsonInt (n : Int) : Bool :=
  -(Numeric.twoTo 63) ≤ n && n < Numeric.twoTo 64

/-- The name of a member for a key. -/
def memberName : Value → Except String String
  | text s _ => .ok s
  | int n => if isJsonInt n then .ok (String.ofList (renderInt n)) else .error "number out of range"
  | bool b => .ok (if b then "true" else "false")
  | float x =>
    if x.isFinite then .ok (String.ofList (Layout.json.render x))
    else .error "float key must be finite (got NaN or +/-inf)"
  | _ => .error "key must be a string"

mutual

/-- Undefined values become null; references become their text. -/
def toJson (objects : Nat → List Char) : Value → Except String Json.Value
  | undefined _ => .ok .null
  | none => .ok .null
  | bool b => .ok (.bool b)
  | int n => if isJsonInt n then .ok (.number (.int n)) else .error "number out of range"
  | float x => .ok (if x.isFinite then .number (.float x) else .null)
  | text s _ => .ok (.text s)
  | list vs => do return .list (← toJsonItems objects vs)
  | iterable vs => do return .list (← toJsonItems objects vs)
  | map es => do return .ofMembers (← toJsonMembers objects es)
  | object _ i => .ok (.text (String.ofList (objects i)))
  | function _ => .ok (.text "<function>")

def toJsonItems (objects : Nat → List Char) : List Value → Except String (List Json.Value)
  | [] => .ok []
  | v :: r => do
    let j ← toJson objects v
    return j :: (← toJsonItems objects r)

def toJsonMembers (objects : Nat → List Char) :
    List (Value × Value) → Except String (List (String × Json.Value))
  | [] => .ok []
  | (k, v) :: r => do
    let name ← memberName k
    let j ← toJson objects v
    return (name, j) :: (← toJsonMembers objects r)

end

end Value

end SecureLayout.Template
