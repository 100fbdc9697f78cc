import SecureLayout.Proofs.Template.Guarded

/-!
Computations that keep the count of loop bodies. Main statements: what is put together from such computations is
one; under a larger limit it does the same, up to the body that the smaller limit refuses.
-/

namespace SecureLayout.Template

open Eval

namespace Machine

/-- Every body that was entered is counted, and none was refused. -/
structure Within (limit : Nat) (m : Machine) : Prop where
  max : m.budget.max = limit
  count : m.budget.count = m.entered
  granted : m.entered ≤ limit
  tripped : m.budget.tripped = false
  written : m.lastWrite ≤ limit

/-- The body after the last one that the limit grants was entered, counted and refused, and wrote nothing. -/
structure Beyond (limit : Nat) (m : Machine) : Prop where
  max : m.budget.max = limit
  count : m.budget.count = m.entered
  refused : m.entered = limit + 1
  tripped : m.budget.tripped = true
  written : m.lastWrite ≤ limit

/-- The same state under another limit. -/
def raised (n : Nat) (m : Machine) : Machine :=
  { m with budget := { m.budget with max := n } }

@[simp] theorem raised_context (n : Nat) (m : Machine) : (m.raised n).context = m.context := rfl

@[simp] theorem raised_heap (n : Nat) (m : Machine) : (m.raised n).heap = m.heap := rfl

/-- What a render counts. -/
def counters (m : Machine) : Budget × Nat × Nat :=
  (m.budget, m.entered, m.lastWrite)

variable {limit n : Nat} {m m' : Machine}

theorem Within.congr (h : m.Within limit) (hc : m'.counters = m.counters) : m'.Within limit := by
  obtain ⟨hb, hc⟩ := Prod.mk.inj hc
  obtain ⟨he, hw⟩ := Prod.mk.inj hc
  exact ⟨hb ▸ h.max, by rw [hb, he, h.count], he ▸ h.granted, hb ▸ h.tripped, hw ▸ h.written⟩

end Machine

/-- A limit and another that is no smaller. -/
structure Limits where
  low : Nat
  high : Nat
  le : low ≤ high

variable {α β : Type} {l : Limits} {p : α → Prop} {q : β → Prop}

/-- A run under a limit beside the same run under a larger one: they end alike, or the smaller limit has refused
a body. -/
inductive Paired (l : Limits) (p : α → Prop) : Except Error α × Machine → Except Error α × Machine → Prop
  | ok {a : α} {m : Machine} (ha : p a) (hm : m.Guarded) (hw : m.Within l.low) :
      Paired l p (.ok a, m) (.ok a, m.raised l.high)
  | error {e : Error} {m : Machine} (hw : m.Within l.low) : Paired l p (.error e, m) (.error e, m.raised l.high)
  | beyond {e : Error} {m : Machine} {r : Except Error α × Machine} (h : m.Beyond l.low) :
      Paired l p (.error e, m) r

/-- From a guarded state within the limit the computation ends in one, or in an error within the limit or one
body beyond it. -/
structure Sound (l : Limits) (p : α → Prop) (x : Eval α) : Prop where
  run : ∀ m : Machine, m.Guarded → m.Within l.low → Paired l p (x m) (x (m.raised l.high))

namespace Sound

variable {x : Eval α} {f : α → Eval β}

theorem pure {a : α} (h : p a) : Sound l p (Pure.pure a : Eval α) :=
  ⟨fun _ hm hw => .ok h hm hw⟩

theorem throw {e : Error} : Sound l p (MonadExcept.throw e : Eval α) :=
  ⟨fun _ _ hw => .error hw⟩

theorem bind (h : Sound l p x) (hf : ∀ a, p a → Sound l q (f a)) : Sound l q (x >>= f) := by
  constructor
  intro m hm hw
  have hx := h.run m hm hw
  change Paired l q (ExceptT.bindCont f (x m).1 (x m).2) (ExceptT.bindCont f (x (m.raised l.high)).1 (x (m.raised l.high)).2)
  generalize x m = r at hx
  generalize x (m.raised l.high) = r' at hx
  cases hx with
  | ok ha hm hw => exact (hf _ ha).run _ hm hw
  | error hw => exact .error hw
  | beyond h => exact .beyond h

theorem mono {q : α → Prop} (h : Sound l p x) (hq : ∀ a, p a → q a) : Sound l q x := by
  constructor
  intro m hm hw
  have hx := h.run m hm hw
  generalize x m = r at hx
  generalize x (m.raised l.high) = r' at hx
  cases hx with
  | ok ha hm hw => exact .ok (hq _ ha) hm hw
  | error hw => exact .error hw
  | beyond h => exact .beyond h

theorem after {y : Eval β} (h : Sound l p x) (hy : Sound l q y) : Sound l q (x >>= fun _ => y) :=
  h.bind fun _ _ => hy

/-! ### Primitives -/

theorem lift {r : Except Error α} (h : Gives r p) : Sound l p (Eval.lift r) := by
  constructor
  intro m hm hw
  cases r with
  | error e => exact .error hw
  | ok a => exact .ok (h.result a rfl) hm hw

/-- A question that the limit has no part in. -/
theorem ask {g : Machine → Except Error α} (hg : ∀ m n, g (m.raised n) = g m)
    (h : ∀ m, m.Guarded → Gives (g m) p) : Sound l p (Eval.ask g) := by
  constructor
  intro m hm hw
  unfold Eval.ask
  rw [hg]
  cases hr : g m with
  | error e => exact .error hw
  | ok a => exact .ok ((h m hm).result a hr) hm hw

/-- A look at the state that the limit has no part in. -/
theorem get {g : Machine → Eval α} (hg : ∀ m n, g (m.raised n) = g m) (h : ∀ m, m.Guarded → Sound l p (g m)) :
    Sound l p (MonadState.get >>= g) := by
  constructor
  intro m hm hw
  change Paired l p (g m m) (g (m.raised l.high) (m.raised l.high))
  rw [hg]
  exact (h m hm).run m hm hw

theorem context : Sound l Context.Guarded Eval.context :=
  ⟨fun _ hm hw => .ok hm.context hm hw⟩

/-- A step that counts nothing and that the limit has no part in. -/
theorem step {g : Machine → α × Machine} (hg : ∀ m n, g (m.raised n) = ((g m).1, (g m).2.raised n))
    (hcount : ∀ m, (g m).2.counters = m.counters) (h : ∀ m, m.Guarded → p (g m).1 ∧ (g m).2.Guarded) :
    Sound l p (fun m => (.ok (g m).1, (g m).2)) := by
  constructor
  intro m hm hw
  rw [hg]
  exact .ok (h m hm).1 (h m hm).2 (hw.congr (hcount m))

theorem change {g : Context → Context} (h : ∀ c, c.Guarded → (g c).Guarded) :
    Sound l (fun _ => True) (Eval.change g) :=
  step (g := fun m => ((), { m with context := g m.context })) (fun _ _ => rfl) (fun _ => rfl)
    fun _ hm => ⟨trivial, h _ hm.context, hm.heap⟩

theorem alloc {c : Cell} (h : c.Guarded) : Sound l (fun _ => True) (Eval.alloc c) := by
  refine step (g := fun m => m.alloc c) (fun _ _ => rfl) (fun _ => rfl) fun m hm => ⟨trivial, hm.context, ?_⟩
  intro a ha
  rcases List.mem_append.1 ha with ha | ha
  · exact hm.heap a ha
  · rw [List.mem_singleton.1 ha]
    exact h

theorem write {s : String} : Sound l (fun _ => True) (Eval.write s) := by
  constructor
  intro m hm hw
  unfold Eval.write
  change Paired l _ _ (if m.context.discarding = true then _ else _)
  split
  · exact .ok trivial hm hw
  · exact .ok trivial ⟨⟨hm.context.scopes, hm.context.blocks, hm.context.parent⟩, hm.heap⟩
      ⟨hw.max, hw.count, hw.granted, hw.tripped, hw.granted⟩

/-! ### Errors -/

theorem atLine {n : Nat} (h : Sound l p x) : Sound l p (Eval.atLine n x) := by
  constructor
  intro m hm hw
  have hx := h.run m hm hw
  unfold Eval.atLine
  generalize x m = r at hx ⊢
  generalize x (m.raised l.high) = r' at hx ⊢
  cases hx with
  | ok ha hm hw => exact .ok ha hm hw
  | error hw => exact .error hw
  | beyond h => exact .beyond h

theorem atExpr {e : Expr} (h : Sound l p x) : Sound l p (Eval.atExpr e x) := by
  rw [atExpr_eq_atLine]
  exact h.atLine

theorem wrapping {x : Eval Unit} {p : Unit → Prop} {e : Error} (h : Sound l p x) : Sound l p (Template.wrapping e x) := by
  constructor
  intro m hm hw
  have hx := h.run m hm hw
  unfold Template.wrapping
  generalize x m = r at hx ⊢
  generalize x (m.raised l.high) = r' at hx ⊢
  cases hx with
  | ok ha hm hw => exact .ok ha hm hw
  | error hw => exact .error hw
  | beyond h => exact .beyond h

/-- A check on the way. -/
theorem guard {e : Error} {c : Prop} [Decidable c] {k : Unit → Eval α} (h : ¬ c → Sound l p (k ())) :
    Sound l p (if c then MonadExcept.throw e >>= k else k ()) := by
  split
  · exact throw.bind (p := fun _ => False) fun _ h => h.elim
  · next hc => exact h hc

/-! ### Lists -/

theorem forM {xs : List α} {f : α → Eval PUnit} (h : ∀ a ∈ xs, Sound l (fun _ => True) (f a)) :
    Sound l (fun _ => True) (xs.forM f) := by
  induction xs with
  | nil => exact pure trivial
  | cons a xs ih =>
    change Sound l _ (f a >>= fun _ => xs.forM f)
    exact (h a List.mem_cons_self).after (ih fun b hb => h b (List.mem_cons_of_mem _ hb))

theorem mapM {xs : List α} {f : α → Eval β} (h : ∀ a ∈ xs, Sound l q (f a)) :
    Sound l (fun ys => ∀ y ∈ ys, q y) (xs.mapM f) := by
  induction xs with
  | nil => exact pure fun y hy => absurd hy List.not_mem_nil
  | cons a xs ih =>
    rw [List.mapM_cons]
    apply (h a List.mem_cons_self).bind
    intro y hy
    apply (ih fun b hb => h b (List.mem_cons_of_mem _ hb)).bind
    intro ys hys
    exact pure (List.forall_mem_cons.2 ⟨hy, hys⟩)

theorem filterM {xs : List α} {f : α → Eval Bool} (h : ∀ a ∈ xs, Sound l (fun _ => True) (f a)) :
    Sound l (fun ys => ys ⊆ xs) (xs.filterM f) := by
  have haux : ∀ {xs acc : List α}, (∀ a ∈ xs, Sound l (fun _ => True) (f a)) →
      Sound l (fun ys => ∀ y ∈ ys, y ∈ acc ∨ y ∈ xs) (xs.filterAuxM f acc) := by
    intro xs
    induction xs with
    | nil =>
      intro acc _
      exact pure fun y hy => .inl hy
    | cons a xs ih =>
      intro acc h
      rw [List.filterAuxM]
      apply (h a List.mem_cons_self).bind
      intro b _
      apply (ih fun b hb => h b (List.mem_cons_of_mem _ hb)).mono
      intro ys hys y hy
      rcases hys y hy with hacc | hxs
      · cases b with
        | false => exact .inl hacc
        | true => exact (List.mem_cons.1 hacc).elim (fun heq => .inr (heq ▸ List.mem_cons_self)) .inl
      · exact .inr (List.mem_cons_of_mem _ hxs)
  rw [List.filterM]
  apply (haux h).bind
  intro ys hys
  apply pure
  intro y hy
  exact (hys y (List.mem_reverse.1 hy)).resolve_left List.not_mem_nil

end Sound

end SecureLayout.Template
