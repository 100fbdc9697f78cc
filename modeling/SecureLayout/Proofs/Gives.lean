/-!
What a computation that may fail gives. `Gives` speaks about the result only; nothing is said about failures.
-/

namespace SecureLayout

/-- If there is a result, it has the property. -/
structure Gives {α ε : Type} (r : Except ε α) (p : α → Prop) : Prop where
  result : ∀ x, r = .ok x → p x

namespace Gives

variable {α β ε : Type} {p : α → Prop} {q : β → Prop} {r : Except ε α} {f : α → Except ε β}

theorem ok {x : α} (h : p x) : Gives (.ok x : Except ε α) p := by
  constructor
  rintro _ ⟨⟩
  exact h

theorem error {e : ε} : Gives (.error e) p := by
  constructor
  rintro _ ⟨⟩

theorem imp {p' : α → Prop} (h : Gives r p) (hp : ∀ x, p x → p' x) : Gives r p' :=
  ⟨fun x hx => hp x (h.result x hx)⟩

theorem bind (h : Gives r p) (hf : ∀ x, p x → Gives (f x) q) : Gives (r >>= f) q := by
  cases r with
  | error e => exact error
  | ok x => exact hf x (h.result x rfl)

/-- What the first result is does not matter. -/
theorem after (hf : ∀ x, Gives (f x) q) : Gives (r >>= f) q :=
  bind (p := fun _ => True) ⟨fun _ _ => trivial⟩ fun x _ => hf x

/-- A check on the way does not matter either. -/
theorem guard {e : ε} {c : Prop} [Decidable c] {k : Unit → Except ε β} (hk : Gives (k ()) q) :
    Gives (if c then Except.error e >>= k else k ()) q := by
  split
  · exact error
  · exact hk

theorem mapM {g : α → Except ε β} {xs : List α} (h : ∀ x ∈ xs, Gives (g x) q) :
    Gives (xs.mapM g) fun ys => ∀ y ∈ ys, q y := by
  induction xs with
  | nil => exact ok fun y hy => absurd hy List.not_mem_nil
  | cons x xs ih =>
    rw [List.mapM_cons]
    apply (h x List.mem_cons_self).bind
    intro y hy
    apply (ih fun a ha => h a (List.mem_cons_of_mem _ ha)).bind
    intro ys hys
    apply ok
    exact List.forall_mem_cons.2 ⟨hy, hys⟩

/-- All items were taken. -/
theorem mapM_all {g : α → Except ε β} (xs : List α) :
    Gives (xs.mapM g) fun _ => ∀ x ∈ xs, ∃ y, g x = .ok y := by
  induction xs with
  | nil => exact ok fun x hx => absurd hx List.not_mem_nil
  | cons x xs ih =>
    rw [List.mapM_cons]
    cases hx : g x with
    | error e => exact error
    | ok y =>
      apply ih.bind
      intro ys hys
      apply ok
      exact List.forall_mem_cons.2 ⟨⟨y, hx⟩, hys⟩

end Gives

end SecureLayout
