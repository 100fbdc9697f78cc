import SecureLayout.Template.Error

/-!
The budget of loop bodies in one render. Main statements: a tick counts whether it is granted or not,
and it is granted exactly while the count stays within the limit.
-/

namespace SecureLayout.Template

structure Budget where
  max : Nat
  count : Nat := 0
  /-- A tick was refused since the last reset. -/
  tripped : Bool := false
  deriving DecidableEq, Repr

namespace Budget

/-- The state at the start of a render. -/
def reset (b : Budget) : Budget :=
  { b with count := 0, tripped := false }

def exceeded (b : Budget) : Error :=
  .invalid ("iteration budget of " ++ toString b.max ++ " exceeded")

/-- Counts one loop body; refused beyond the limit. -/
def tick (b : Budget) : Except Error Unit × Budget :=
  if b.max < b.count + 1 then (.error b.exceeded, { b with count := b.count + 1, tripped := true })
  else (.ok (), { b with count := b.count + 1 })

theorem count_tick (b : Budget) : b.tick.2.count = b.count + 1 := by
  unfold tick
  split <;> rfl

theorem tick_ok_iff (b : Budget) : b.tick.1 = .ok () ↔ b.count < b.max := by
  unfold tick
  split
  · simp; omega
  · simp; omega

theorem tripped_tick (b : Budget) : b.tick.2.tripped = (b.tripped || decide (b.max ≤ b.count)) := by
  unfold tick
  split
  · have : b.max ≤ b.count := by omega
    simp [this]
  · have : ¬ b.max ≤ b.count := by omega
    simp [this]

end Budget

end SecureLayout.Template
