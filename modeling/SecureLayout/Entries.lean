/-!
Finite maps from text keys, kept as lists in key order. Main statements: what is read back after
`put` and `remove`, and that both keep the keys strictly increasing.
-/

namespace SecureLayout

/-- Keys stand in increasing order, each once; every operation below keeps that. -/
abbrev Entries (α : Type) := List (String × α)

namespace Entries

variable {α β : Type}

def get? (k : String) : Entries α → Option α
  | [] => none
  | (a, v) :: r => if k = a then some v else get? k r

/-- Adds a binding, or replaces the one of that key. -/
def put (k : String) (v : α) : Entries α → Entries α
  | [] => [(k, v)]
  | (a, w) :: r =>
    if k < a then (k, v) :: (a, w) :: r
    else if k = a then (k, v) :: r
    else (a, w) :: put k v r

def remove (k : String) (m : Entries α) : Entries α :=
  m.filter fun e => e.1 != k

def contains (k : String) (m : Entries α) : Bool :=
  (get? k m).isSome

def keys (m : Entries α) : List String :=
  m.map (·.1)

/-- Of two bindings of one key the later wins. -/
def ofList (es : List (String × α)) : Entries α :=
  es.foldl (fun m e => put e.1 e.2 m) []

def mapValues (f : α → β) (m : Entries α) : Entries β :=
  m.map fun e => (e.1, f e.2)

/-- Keys strictly increase. -/
def Sorted (m : Entries α) : Prop :=
  m.Pairwise fun a b => a.1 < b.1

@[simp] theorem get?_nil (k : String) : get? k ([] : Entries α) = none := rfl

theorem get?_put (k k' : String) (v : α) (m : Entries α) :
    get? k' (put k v m) = if k' = k then some v else get? k' m := by
  induction m with
  | nil => simp [put, get?]
  | cons e r ih =>
    obtain ⟨a, w⟩ := e
    unfold put
    split
    · simp [get?]
    · split
      · next hk => subst hk; by_cases h : k' = k <;> simp [get?, h]
      · next hk =>
        simp only [get?, ih]
        by_cases h : k' = a
        · have : ¬ a = k := fun e => hk e.symm
          simp [h, this]
        · simp [h]

theorem get?_remove (k k' : String) (m : Entries α) :
    get? k' (remove k m) = if k' = k then none else get? k' m := by
  induction m with
  | nil => simp [remove]
  | cons e r ih =>
    obtain ⟨a, w⟩ := e
    simp only [remove, List.filter_cons] at ih ⊢
    by_cases h : a = k
    · simp only [h, bne_self_eq_false, Bool.false_eq_true, ↓reduceIte, ih, get?]
      by_cases hk : k' = k <;> simp [hk]
    · have hb : (a != k) = true := by simpa using h
      simp only [hb, ↓reduceIte, get?, ih]
      by_cases hk : k' = a
      · simp [hk, h]
      · simp [hk]

theorem contains_put (k k' : String) (v : α) (m : Entries α) :
    contains k' (put k v m) = (k' == k || contains k' m) := by
  unfold contains
  rw [get?_put]
  by_cases h : k' = k <;> simp [h]

end Entries

end SecureLayout
