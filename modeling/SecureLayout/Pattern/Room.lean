import SecureLayout.Pattern.Matching

/-!
How much room a pattern takes once its repetitions are written out. `Pattern.room` counts it in
octets; a repetition with a count takes that many times the room of what it repeats.
-/

namespace SecureLayout

namespace CharSet

/-- The set has ASCII characters only, as far as its form shows. -/
def isAscii : CharSet → Bool
  | range _ b => b.toNat < 0x80
  | asciiWord | asciiDigit | asciiBlank | none => true
  | union a b => a.isAscii && b.isAscii
  | inter a b => a.isAscii || b.isAscii
  | listed _ | folded _ | word | digit | blank | compl _ => false

/-- About how many ranges the set has; the rest of all characters takes some more. -/
def pieces : CharSet → Nat
  | range _ _ => 1
  | listed spans => spans.length
  | folded a => 2 * a.pieces
  | word => Text.wordRanges.size
  | digit => Text.digitRanges.size
  | blank => 10
  | asciiWord => 4
  | asciiDigit => 1
  | asciiBlank => 2
  | none => 0
  | union a b => a.pieces + b.pieces
  | inter a b => a.pieces + b.pieces
  | compl a => a.pieces + 14

/-- A single character takes one step for each of its octets. -/
def room (s : CharSet) : Nat :=
  match s with
  | range a b =>
    if a == b then 32 * a.utf8Size
    else if s.isAscii then 72 else 64 * s.pieces
  | _ => if s.isAscii then 64 + 8 * s.pieces else 64 * s.pieces

end CharSet

namespace Pattern

/-- Room for one round that may be left out. -/
def branchRoom : Nat := 40

def room : Pattern → Nat
  | empty => 32
  | one s => s.room
  | edge _ => 32
  | seq a b => a.room + b.room
  | either a b => a.room + b.room + branchRoom
  | rounds a least most =>
    match most with
    | none => max least 1 * a.room + branchRoom
    | some m => 32 + least * a.room + (m - least) * (a.room + branchRoom)

/-- No pattern may take more room than this: ten times 1048576 octets. -/
def greatestRoom : Nat := 10485760

theorem room_rounds_exact (a : Pattern) (n : Nat) :
    (rounds a n (some n)).room = 32 + n * a.room := by
  simp [room]

end Pattern

end SecureLayout
