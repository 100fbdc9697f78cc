import SecureLayout.Numeric.Power
import SecureLayout.Yaml.Scalar

/-!
Addresses a server listens at: a host of four octets or of eight groups in brackets, a colon and a port.
-/

namespace SecureLayout.Config

/-- A host by its octets or its groups of 16 bits. -/
inductive Host where
  | octets (os : List Nat)
  | groups (gs : List Nat)
  deriving DecidableEq, Repr

structure SocketAddress where
  host : Host
  port : Nat
  deriving DecidableEq, Repr

namespace SocketAddress

/-- A number in a base below a bound, with at most `width` digits if that is limited, and what follows it. -/
def number? (base bound : Nat) (width : Option Nat) (leadingZeros : Bool) (s : List Char) :
    Option (Nat × List Char) :=
  let isDigit (c : Char) : Bool := (Yaml.hexDigit? c).any (· < base)
  let ds := s.takeWhile isDigit
  let n := ds.foldl (fun n c => base * n + (Yaml.hexDigit? c).getD 0) 0
  if ds.isEmpty || width.any (· < ds.length) || bound ≤ n then none
  else if !leadingZeros && ds.head? == some '0' && 1 < ds.length then none
  else some (n, s.drop ds.length)

/-- Past a given character. -/
def after? (c : Char) : List Char → Option (List Char)
  | [] => none
  | d :: r => if d = c then some r else none

/-- Four octets with dots between them. -/
def octets? : Nat → List Char → Option (List Nat × List Char)
  | 0, _ => none
  | 1, s => do
    let (n, r) ← number? 10 256 (some 3) false s
    return ([n], r)
  | k + 2, s => do
    let (n, r) ← number? 10 256 (some 3) false s
    let r ← after? '.' r
    let (ns, r) ← octets? (k + 1) r
    return (n :: ns, r)

/-- Up to `room` groups with colons between them; the last two may be written as four octets. Tells
whether they are. -/
def groups : Nat → Bool → List Char → List Nat × Bool × List Char
  | 0, _, s => ([], false, s)
  | room + 1, first, s =>
    match if first then some s else after? ':' s with
    | none => ([], false, s)
    | some body =>
      match if room = 0 then none else octets? 4 body with
      | some ([a, b, c, d], r) => ([256 * a + b, 256 * c + d], true, r)
      | _ =>
        match number? 16 65536 (some 4) true body with
        | none => ([], false, s)
        | some (n, r) =>
          let (ns, v4, r) := groups room false r
          (n :: ns, v4, r)

/-- Eight groups; two colons in a row stand for the zeros that are left out. -/
def groups? (s : List Char) : Option (List Nat × List Char) :=
  let (front, v4, r) := groups 8 true s
  if front.length = 8 then some (front, r)
  else if v4 then none
  else
    match r with
    | ':' :: ':' :: r =>
      let (back, _, r) := groups (7 - front.length) true r
      some (front ++ List.replicate (8 - front.length - back.length) 0 ++ back, r)
    | _ => none

/-- A colon and a port at the end. -/
def port? (s : List Char) : Option Nat := do
  let (n, r) ← number? 10 65536 none true (← after? ':' s)
  if r.isEmpty then some n else none

/-- The scope that may follow the groups. -/
def skipScope? (s : List Char) : Option (List Char) :=
  match s with
  | '%' :: r => (number? 10 (Numeric.twoTo 32) none true r).map (·.2)
  | s => some s

def parse? (s : List Char) : Option SocketAddress :=
  match octets? 4 s with
  | some (os, r) => (port? r).map fun p => ⟨.octets os, p⟩
  | none => do
    let (gs, r) ← groups? (← after? '[' s)
    let p ← port? (← after? ']' (← skipScope? r))
    return ⟨.groups gs, p⟩

end SocketAddress

end SecureLayout.Config
