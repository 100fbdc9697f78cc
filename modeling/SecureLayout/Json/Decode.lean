import SecureLayout.Json.Reader
import SecureLayout.Numeric.Power

/-!
Records out of what was read. Every record may also be written as a list of its fields in order.
Fields are looked at in the order of the text, so the first fault met is the one reported.
-/

namespace SecureLayout.Json

abbrev Decoded (α : Type) := Except Mismatch α

namespace Raw

def toText : Raw → Decoded String
  | .text s => .ok s
  | r => .error (.wrongType r.found "a string")

/-- A natural below `2 ^ 64`. -/
def toWord : Raw → Decoded Nat
  | .number (.int n) =>
    if 0 ≤ n && n < Numeric.twoTo 64 then .ok n.toNat else .error (.wrongValue (.int n) "u64")
  | r => .error (.wrongType r.found "u64")

/-- Absent for `null`. -/
def toOptional : Raw → Decoded (Option Value)
  | .null => .ok none
  | r => .ok (some r.toValue)

def toAny (r : Raw) : Decoded Value :=
  .ok r.toValue

def toListOf {α : Type} (item : Raw → Decoded α) : Raw → Decoded (List α)
  | .list rs => rs.mapM item
  | r => .error (.wrongType r.found "a sequence")

end Raw

/-- A field of a record: its name, how its value is read, and what stands for it when it is absent. -/
structure Slot (α : Type) where
  name : String
  read : Raw → Decoded α
  absent : Option α := none

/-- What a record is called in complaints, and whether it refuses names that are not its own. -/
structure Header where
  title : String
  strict : Bool

def elements (n : Nat) : String :=
  toString n ++ (if n = 1 then " element" else " elements")

variable {α β γ : Type}

namespace Slot

/-- The value found for a field, or what stands for it. -/
def close (s : Slot α) : Option α → Decoded α
  | some v => .ok v
  | none =>
    match s.absent with
    | some v => .ok v
    | none => .error (.missingField s.name)

/-- The field that comes next in a list of `count`, where `done` have been read. -/
def take (s : Slot α) (h : Header) (count done : Nat) : List Raw → Decoded (α × List Raw)
  | r :: rs => do return (← s.read r, rs)
  | [] =>
    match s.absent with
    | some v => .ok (v, [])
    | none => .error (.wrongLength done (h.title ++ " with " ++ elements count))

/-- Reads the field unless it was read before. -/
def once (s : Slot α) (r : Raw) : Option α → Decoded (Option α)
  | some _ => .error (.duplicateField s.name)
  | none => do return some (← s.read r)

end Slot

/-- No item of a list of `count` fields may be left over. -/
def noneLeft (count : Nat) (rest : List Raw) : Decoded Unit :=
  if rest.isEmpty then .ok ()
  else .error (.wrongLength (count + rest.length) (elements count ++ " in sequence"))

/-- A name that is no field's. -/
def otherName (h : Header) (name : String) (known : List String) : Decoded Unit :=
  if h.strict then .error (.unknownField name known) else .ok ()

def record1Members (h : Header) (a : Slot α) : List (String × Raw) → Option α → Decoded α
  | [], x => a.close x
  | (k, r) :: ms, x =>
    if k = a.name then do record1Members h a ms (← a.once r x)
    else do
      otherName h k [a.name]
      record1Members h a ms x

def record1 (h : Header) (a : Slot α) : Raw → Decoded α
  | .list rs => do
    let (x, rs) ← a.take h 1 0 rs
    noneLeft 1 rs
    return x
  | .object ms => record1Members h a ms none
  | r => .error (.wrongType r.found h.title)

def record2Members (h : Header) (a : Slot α) (b : Slot β) :
    List (String × Raw) → Option α → Option β → Decoded (α × β)
  | [], x, y => do return (← a.close x, ← b.close y)
  | (k, r) :: ms, x, y =>
    if k = a.name then do record2Members h a b ms (← a.once r x) y
    else if k = b.name then do record2Members h a b ms x (← b.once r y)
    else do
      otherName h k [a.name, b.name]
      record2Members h a b ms x y

def record2 (h : Header) (a : Slot α) (b : Slot β) : Raw → Decoded (α × β)
  | .list rs => do
    let (x, rs) ← a.take h 2 0 rs
    let (y, rs) ← b.take h 2 1 rs
    noneLeft 2 rs
    return (x, y)
  | .object ms => record2Members h a b ms none none
  | r => .error (.wrongType r.found h.title)

def record3Members (h : Header) (a : Slot α) (b : Slot β) (c : Slot γ) :
    List (String × Raw) → Option α → Option β → Option γ → Decoded (α × β × γ)
  | [], x, y, z => do return (← a.close x, ← b.close y, ← c.close z)
  | (k, r) :: ms, x, y, z =>
    if k = a.name then do record3Members h a b c ms (← a.once r x) y z
    else if k = b.name then do record3Members h a b c ms x (← b.once r y) z
    else if k = c.name then do record3Members h a b c ms x y (← c.once r z)
    else do
      otherName h k [a.name, b.name, c.name]
      record3Members h a b c ms x y z

def record3 (h : Header) (a : Slot α) (b : Slot β) (c : Slot γ) : Raw → Decoded (α × β × γ)
  | .list rs => do
    let (x, rs) ← a.take h 3 0 rs
    let (y, rs) ← b.take h 3 1 rs
    let (z, rs) ← c.take h 3 2 rs
    noneLeft 3 rs
    return (x, y, z)
  | .object ms => record3Members h a b c ms none none none
  | r => .error (.wrongType r.found h.title)

/-- A message without fields: a list must be empty, members are not looked at. -/
def noFields : Raw → Decoded Unit
  | .list rs => noneLeft 0 rs
  | _ => .ok ()

end SecureLayout.Json
