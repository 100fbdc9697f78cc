import SecureLayout.Entries
import SecureLayout.Json.Value

/-!
Presence of clients on documents. It is kept apart from the documents, and a document on which nobody is
present is not kept at all.
-/

namespace SecureLayout.Collab

open Json (Value)

/-- States of the clients of every document. -/
structure Awareness where
  docs : Entries (Entries Value) := []
  deriving Repr

namespace Awareness

/-- Clients of a document with their states, in the order of the clients. -/
def states (a : Awareness) (doc : String) : Entries Value :=
  (Entries.get? doc a.docs).getD []

def get? (a : Awareness) (doc client : String) : Option Value :=
  Entries.get? client (a.states doc)

/-- Replaces the states of a document. -/
def update (a : Awareness) (doc : String) (states : Entries Value) : Awareness :=
  if states.isEmpty then ⟨Entries.remove doc a.docs⟩ else ⟨Entries.put doc states a.docs⟩

def set (a : Awareness) (doc client : String) (state : Value) : Awareness :=
  a.update doc (Entries.put client state (a.states doc))

/-- Whether the client was present. -/
def leave (a : Awareness) (doc client : String) : Bool × Awareness :=
  if Entries.contains client (a.states doc) then
    (true, a.update doc (Entries.remove client (a.states doc)))
  else (false, a)

/-- Without a state the client leaves. -/
def apply (a : Awareness) (doc client : String) : Option Value → Awareness
  | some s => a.set doc client s
  | none => (a.leave doc client).2

theorem states_update (a : Awareness) (doc other : String) (s : Entries Value) :
    (a.update doc s).states other = if other = doc then s else a.states other := by
  unfold update states
  by_cases h : s.isEmpty
  · by_cases ho : other = doc <;> simp_all [Entries.get?_remove]
  · by_cases ho : other = doc <;> simp [h, ho, Entries.get?_put]

theorem states_set (a : Awareness) (doc client other : String) (s : Value) :
    (a.set doc client s).states other =
      if other = doc then Entries.put client s (a.states doc) else a.states other :=
  states_update a doc other _

theorem get?_set (a : Awareness) (doc client : String) (s : Value) (d c : String) :
    (a.set doc client s).get? d c = if d = doc ∧ c = client then some s else a.get? d c := by
  unfold get?
  rw [states_set]
  by_cases hd : d = doc
  · simp [hd, Entries.get?_put]
  · simp [hd]

theorem get?_leave (a : Awareness) (doc client d c : String) :
    (a.leave doc client).2.get? d c = if d = doc ∧ c = client then none else a.get? d c := by
  unfold leave get?
  by_cases hc : Entries.contains client (a.states doc)
  · simp only [hc, if_true, states_update]
    by_cases hd : d = doc
    · simp [hd, Entries.get?_remove]
    · simp [hd]
  · have hnone : Entries.get? client (a.states doc) = none := by simpa [Entries.contains] using hc
    simp only [hc, Bool.false_eq_true, if_false]
    split
    · next he => rw [he.1, he.2, hnone]
    · rfl

end Awareness

end SecureLayout.Collab
