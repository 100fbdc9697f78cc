import SecureLayout.Entries
import SecureLayout.Wire.Sync

/-!
One replica of a shared document: per field the write with the latest clock. Main statements: what a
local write and a merge leave under each field, and that the clock never falls.
-/

namespace SecureLayout.Collab

open Json (Value)
open Wire (Clock FieldUpdate)

structure Document where
  replica : String
  /-- The winning write of every field, under the field's name. -/
  entries : Entries FieldUpdate := []
  /-- The greatest counter written or merged. -/
  clock : Nat := 0
  deriving Repr

namespace Document

def winner? (d : Document) (field : String) : Option FieldUpdate :=
  Entries.get? field d.entries

def get? (d : Document) (field : String) : Option Value :=
  (d.winner? field).map (·.value)

/-- Winning writes in the order of the fields. -/
def snapshot (d : Document) : List FieldUpdate :=
  d.entries.map (·.2)

/-- The document as an object of its fields. -/
def toValue (d : Document) : Value :=
  .object (d.entries.map fun e => (e.1, e.2.value))

def size (d : Document) : Nat :=
  d.entries.length

/-- Clocks are words, so a replica may run out of them. -/
def exhausted (d : Document) : Failure :=
  .resourceExceeded ("clock of replica " ++ d.replica ++ " exhausted")

/-- A local write, later than everything known here. -/
def set (d : Document) (field : String) (value : Value) : Result (FieldUpdate × Document) :=
  if d.clock < Clock.greatestCounter then
    let u : FieldUpdate := ⟨field, value, ⟨d.clock + 1, d.replica⟩⟩
    .ok (u, { d with entries := Entries.put field u d.entries, clock := d.clock + 1 })
  else .error d.exhausted

/-- Whether a write is later than what stands under its field. -/
def isNews (d : Document) (u : FieldUpdate) : Bool :=
  match d.winner? u.field with
  | some cur => cur.clock.before u.clock
  | none => true

/-- Takes a write of another replica in unless it lost, and says whether it did. -/
def merge (d : Document) (u : FieldUpdate) : Bool × Document :=
  let clock := max d.clock u.clock.counter
  if d.isNews u then (true, { d with entries := Entries.put u.field u d.entries, clock })
  else (false, { d with clock })

/-- Takes writes in one after the other. -/
def mergeAll (d : Document) (us : List FieldUpdate) : Document :=
  us.foldl (fun d u => (d.merge u).2) d

theorem winner?_merge (d : Document) (u : FieldUpdate) (field : String) :
    (d.merge u).2.winner? field =
      if field = u.field ∧ d.isNews u then some u else d.winner? field := by
  unfold merge
  by_cases hn : d.isNews u
  · by_cases hf : field = u.field <;> simp [hn, hf, winner?, Entries.get?_put]
  · simp [hn, winner?]

theorem clock_merge (d : Document) (u : FieldUpdate) :
    (d.merge u).2.clock = max d.clock u.clock.counter := by
  unfold merge
  split <;> rfl

theorem set_eq_ok {d d' : Document} {field : String} {value : Value} {u : FieldUpdate}
    (h : d.set field value = .ok (u, d')) :
    u = ⟨field, value, ⟨d.clock + 1, d.replica⟩⟩ ∧ d'.clock = d.clock + 1 ∧
      d'.entries = Entries.put field u d.entries ∧ d'.replica = d.replica := by
  unfold set at h
  split at h
  · simp only [Except.ok.injEq, Prod.mk.injEq] at h
    obtain ⟨rfl, rfl⟩ := h
    exact ⟨rfl, rfl, rfl, rfl⟩
  · cases h

theorem set_fails_iff (d : Document) (field : String) (value : Value) :
    (∃ e, d.set field value = .error e) ↔ Clock.greatestCounter ≤ d.clock := by
  unfold set
  split
  · simp
    omega
  · simp
    omega

end Document

end SecureLayout.Collab
