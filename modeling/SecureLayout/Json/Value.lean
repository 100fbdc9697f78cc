import SecureLayout.Entries
import SecureLayout.Numeric.Double

/-!
JSON values. Members of an object stand in key order and each key once; a number is an integer or a
double, and the two kinds stay apart.
-/

namespace SecureLayout.Json

open SecureLayout.Numeric

inductive Number where
  | int (n : Int)
  | float (x : Double)
  deriving DecidableEq, Repr, Inhabited

inductive Value where
  | null
  | bool (b : Bool)
  | number (n : Number)
  | text (s : String)
  | list (items : List Value)
  | object (members : List (String × Value))
  deriving Repr, Inhabited

namespace Value

mutual

def beq : Value → Value → Bool
  | null, null => true
  | bool a, bool b => a == b
  | number a, number b => a == b
  | text a, text b => a == b
  | list a, list b => beqItems a b
  | object a, object b => beqMembers a b
  | _, _ => false

def beqItems : List Value → List Value → Bool
  | [], [] => true
  | a :: r, b :: s => beq a b && beqItems r s
  | _, _ => false

def beqMembers : List (String × Value) → List (String × Value) → Bool
  | [], [] => true
  | (k, a) :: r, (l, b) :: s => k == l && beq a b && beqMembers r s
  | _, _ => false

end

instance : BEq Value := ⟨beq⟩

def ofNat (n : Nat) : Value :=
  .number (.int n)

def ofInt (n : Int) : Value :=
  .number (.int n)

/-- An object from its members in any order; of two with one key the later wins. -/
def ofMembers (ms : List (String × Value)) : Value :=
  .object (Entries.ofList ms)

/-- A member of an object; nothing for other kinds. -/
def member? (k : String) : Value → Option Value
  | object ms => Entries.get? k ms
  | _ => none

/-- The members of an object; none for other kinds. -/
def members : Value → Entries Value
  | object ms => ms
  | _ => []

def isNull : Value → Bool
  | null => true
  | _ => false

mutual

/-- Levels of lists and objects around the deepest part. -/
def depth : Value → Nat
  | list items => depthItems items + 1
  | object ms => depthMembers ms + 1
  | _ => 0

def depthItems : List Value → Nat
  | [] => 0
  | v :: r => max (depth v) (depthItems r)

def depthMembers : List (String × Value) → Nat
  | [] => 0
  | (_, v) :: r => max (depth v) (depthMembers r)

end

end Value

end SecureLayout.Json
