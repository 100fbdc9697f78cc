import SecureLayout.Proofs.Template.Tickless
import SecureLayout.Proofs.Template.Woven

/-!
States of a render in which the function that counts loop bodies stands under its own name alone, and every loop
that may still run counts its bodies. Main statements: what such a state gives under a name or as an attribute,
and which changes keep it one.
-/

namespace SecureLayout.Template

/-! ### Parts of templates -/

/-- The loop counts its bodies. -/
structure Loop.Metered (l : Loop) : Prop where
  target : tickFunction ∉ l.target.names
  subject : tickFunction ∉ l.subject.names
  keep : ∀ e ∈ l.keep, tickFunction ∉ e.names
  body : ∃ t r, l.body = t :: r ∧ t.IsTick ∧ ∀ x ∈ r, x.Metered
  other : ∀ x ∈ l.other, x.Metered

structure Macro.Metered (m : Macro) : Prop where
  head : tickFunction ∉ m.headNames
  body : ∀ x ∈ m.body, x.Metered

def Body.Metered (b : Body) : Prop :=
  ∀ x ∈ b.stmts, x.Metered

namespace Stmt.Metered

variable {s : Stmt} {n : Nat}

theorem head (h : s.Metered) : tickFunction ∉ s.headNames := by
  cases h
  assumption

theorem inner (h : s.Metered) : ∀ x ∈ s.inner, x.Metered := by
  cases h
  assumption

theorem counts (h : s.Metered) : s.Counts := by
  cases h
  assumption

theorem loop {l : Loop} (h : (Stmt.forLoop n l).Metered) : l.Metered := by
  have hhead := h.head
  have hinner := h.inner
  have hcounts := h.counts
  cases l with
  | mk target subject keep recursive body other =>
    obtain ⟨t, ht, htick⟩ := hcounts
    cases body with
    | nil => cases ht
    | cons a body =>
      cases ht
      simp only [headNames, List.mem_append, not_or] at hhead
      refine ⟨hhead.1, hhead.2.1, ?_, ⟨_, _, rfl, htick, fun x hx => hinner x (List.mem_append_left _ hx)⟩,
        fun x hx => hinner x (List.mem_append_right _ hx)⟩
      rintro e ⟨⟩
      exact hhead.2.2

theorem macro_ {m : Macro} (h : (Stmt.define n m).Metered) : m.Metered :=
  ⟨h.head, h.inner⟩

theorem caller {e : Expr} {m : Macro} (h : (Stmt.callBlock n e m).Metered) : m.Metered :=
  ⟨fun hmem => h.head (List.mem_append_right _ hmem), h.inner⟩

end Stmt.Metered

theorem mem_blocksOf {ss : List Stmt} {b : String × List Stmt} : b ∈ blocksOf ss ↔ ∃ s ∈ ss, b ∈ s.blocks := by
  induction ss with
  | nil => simp [blocksOf]
  | cons s ss ih => simp [blocksOf, ih]

theorem Stmt.IsTick.blocks {t : Stmt} (h : t.IsTick) : t.blocks = [] := by
  cases t with
  | set line target e => rfl
  | _ => exact h.elim

/-- The blocks in a statement that counts its loops count theirs. -/
theorem Stmt.Metered.blocks {s : Stmt} (h : s.Metered) : ∀ b ∈ s.blocks, ∀ x ∈ b.2, x.Metered := by
  induction h with
  | @mk s head counts inner ih =>
    have hblocks : ∀ {ss : List Stmt}, ss ⊆ s.inner → ∀ b ∈ blocksOf ss, ∀ x ∈ b.2, x.Metered := by
      intro ss hss b hb
      obtain ⟨a, ha, hb⟩ := mem_blocksOf.1 hb
      exact ih a (hss ha) b hb
    cases s with
    | forLoop n l =>
      cases l with
      | mk target subject keep recursive body other =>
        obtain ⟨t, ht, htick⟩ := counts
        cases body with
        | nil => cases ht
        | cons a body =>
          cases ht
          intro b hb
          rw [Stmt.blocks, blocksOf, htick.blocks, List.nil_append] at hb
          rcases List.mem_append.1 hb with hb | hb
          · exact hblocks (List.subset_append_left _ _) b hb
          · exact hblocks (List.subset_append_right _ _) b hb
    | ifThen test yes no =>
      intro b hb
      rw [Stmt.blocks] at hb
      rcases List.mem_append.1 hb with hb | hb
      · exact hblocks (List.subset_append_left _ _) b hb
      · exact hblocks (List.subset_append_right _ _) b hb
    | withValues line bindings body => exact hblocks (List.Subset.refl _)
    | setBlock line target filter body => exact hblocks (List.Subset.refl _)
    | autoescape mode body => exact hblocks (List.Subset.refl _)
    | filterBlock line filter body => exact hblocks (List.Subset.refl _)
    | block line name body =>
      intro b hb
      rcases List.mem_cons.1 hb with rfl | hb
      · exact inner
      · exact hblocks (List.Subset.refl _) b hb
    | _ => exact fun b hb => absurd hb List.not_mem_nil

theorem blocksOf_metered {ss : List Stmt} (h : ∀ s ∈ ss, s.Metered) : ∀ b ∈ blocksOf ss, ∀ x ∈ b.2, x.Metered := by
  intro b hb
  obtain ⟨s, hs, hb⟩ := mem_blocksOf.1 hb
  exact (h s hs).blocks b hb

/-! ### Names -/

/-- The function that counts stands under its own name, and nowhere in what stands under another. -/
structure Fits (name : String) (v : Value) : Prop where
  own : name = tickFunction → v = .function .tick
  other : name ≠ tickFunction → v.Tickless

theorem fits_of_ne {name : String} {v : Value} (hn : name ≠ tickFunction) (hv : v.Tickless) : Fits name v :=
  ⟨fun h => absurd h hn, fun _ => hv⟩

theorem Fits.put {name : String} {v : Value} {es : Entries Value} (hv : Fits name v)
    (h : ∀ e ∈ es, Fits e.1 e.2) : ∀ e ∈ Entries.put name v es, Fits e.1 e.2 := by
  intro e he
  rcases Entries.mem_put he with rfl | he
  · exact hv
  · exact h e he

theorem builtin?_fits {name : String} : ∀ f ∈ builtin? name, Fits name (.function f) := by
  intro f hf
  unfold builtin? at hf
  split at hf
  · cases hf
    exact fits_of_ne (by decide) (.function (by decide))
  · cases hf
    exact fits_of_ne (by decide) (.function (by decide))
  · split at hf
    · next h =>
      cases hf
      rw [eq_of_beq h]
      exact fits_of_ne (by decide) (.function (by decide))
    · split at hf
      · next h =>
        cases hf
        exact ⟨fun _ => rfl, fun hne => absurd (eq_of_beq h) hne⟩
      · cases hf

theorem builtin?_tick : builtin? tickFunction = some .tick := by
  decide

/-! ### States -/

/-- The scope gives the name of the counting function to nothing, and a loop that its body may call counts. -/
structure Scope.Guarded (s : Scope) : Prop where
  names : ∀ e ∈ s.locals, e.1 ≠ tickFunction
  values : ∀ e ∈ s.locals, e.2.Tickless
  again : ∀ l ∈ s.loop, ∀ loop ∈ l.again, loop.Metered

structure Context.Guarded (c : Context) : Prop where
  scopes : ∀ s ∈ c.scopes, s.Guarded
  blocks : ∀ e ∈ c.blocks, ∀ b ∈ e.2.bodies, b.Metered
  parent : ∀ b ∈ c.parent, b.Metered

inductive Cell.Guarded : Cell → Prop
  | loop {s : LoopState} (previous : ∀ v ∈ s.previous, v.Tickless) (next : ∀ v ∈ s.next, v.Tickless) :
      Guarded (.loop s)
  | space {es : Entries Value} (h : ∀ e ∈ es, e.2.Tickless) : Guarded (.space es)
  | names {es : Entries Value} (h : ∀ e ∈ es, Fits e.1 e.2) : Guarded (.names es)
  | macro_ {c : Closure} (h : c.decl.Metered) : Guarded (.macro_ c)

structure Machine.Guarded (m : Machine) : Prop where
  context : m.context.Guarded
  heap : ∀ c ∈ m.heap, c.Guarded

structure World.Guarded (w : World) : Prop where
  templates : ∀ t ∈ w.templates, ∀ s ∈ t.2, s.Metered
  data : w.data.Tickless
  hidden : w.data.attr? tickFunction = none

namespace Machine

variable {m : Machine} {w : World} {name : String} {v : Value}

theorem Guarded.cell (h : m.Guarded) {i : Nat} {c : Cell} (hc : m.heap[i]? = some c) : c.Guarded :=
  h.heap c (List.mem_of_getElem? hc)

/-! ### Reading -/

theorem Guarded.baseValue? (h : m.Guarded) (hw : w.Guarded) (b : Base) :
    ∀ v ∈ m.baseValue? w name b, Fits name v := by
  intro v hv
  cases b with
  | empty => cases hv
  | data =>
    change w.data.attr? name = some v at hv
    refine ⟨?_, fun _ => Value.tickless_attr? hw.data v hv⟩
    rintro rfl
    rw [hw.hidden] at hv
    cases hv
  | captured i =>
    simp only [Machine.baseValue?] at hv
    split at hv
    · next es hes =>
      cases h.cell hes with
      | names hes => exact hes _ (Entries.mem_of_get? hv)
    · cases hv

theorem Guarded.scopeValue? (h : m.Guarded) (hw : w.Guarded) {s : Scope} (hs : s.Guarded) :
    ∀ v ∈ m.scopeValue? w name s, Fits name v := by
  intro v hv
  unfold Machine.scopeValue? at hv
  split at hv
  · next x hx =>
    cases hv
    have hmem := Entries.mem_of_get? hx
    exact fits_of_ne (hs.names _ hmem) (hs.values _ hmem)
  · split at hv
    · split at hv
      · next hname =>
        cases hv
        rw [eq_of_beq hname]
        exact fits_of_ne (by decide) (.object _ _)
      · exact h.baseValue? hw _ v hv
    · exact h.baseValue? hw _ v hv

/-- Under every name stands what fits it. -/
theorem Guarded.lookup? (h : m.Guarded) (hw : w.Guarded) : ∀ v ∈ m.lookup? w name, Fits name v := by
  intro v hv
  unfold Machine.lookup? at hv
  rcases Option.or_eq_some_iff.1 hv with hv | ⟨-, hv⟩
  · obtain ⟨s, hs, hv⟩ := List.exists_of_findSome?_eq_some hv
    exact h.scopeValue? hw (h.context.scopes s hs) v hv
  · obtain ⟨f, hf, rfl⟩ := Option.map_eq_some_iff.1 hv
    exact builtin?_fits f hf

theorem Guarded.lookup?_tick (h : m.Guarded) (hw : w.Guarded) :
    m.lookup? w tickFunction = some (.function .tick) := by
  cases hv : m.lookup? w tickFunction with
  | none =>
    rw [Machine.lookup?, builtin?_tick, Option.or_eq_none_iff] at hv
    cases hv.2
  | some v => rw [(h.lookup? hw v hv).own rfl]

theorem Guarded.attr? (h : m.Guarded) (hv : v.Tickless) : ∀ x ∈ m.attr? v name, x.Tickless := by
  intro x hx
  unfold Machine.attr? at hx
  split at hx
  · split at hx
    · next l hl =>
      cases h.cell hl with
      | loop previous next =>
        unfold loopAttr? at hx
        split at hx
        all_goals cases hx
        all_goals first
          | exact .int _
          | exact .bool _
          | exact Value.tickless_getD previous (.undefined _)
          | exact Value.tickless_getD next (.undefined _)
    · next es hes =>
      cases h.cell hes with
      | space hes => exact hes _ (Entries.mem_of_get? hx)
    · unfold macroAttr? at hx
      split at hx
      · cases hx
        exact .text _ _
      · cases hx
        apply Value.Tickless.list
        intro y hy
        obtain ⟨n, -, rfl⟩ := List.mem_map.1 hy
        exact .text _ _
      · cases hx
        exact .bool _
      · cases hx
    · cases hx
  · exact Value.tickless_attr? hv x hx

theorem Guarded.item? {key : Value} (h : m.Guarded) (hv : v.Tickless) : ∀ x ∈ m.item? v key, x.Tickless := by
  intro x hx
  unfold Machine.item? at hx
  split at hx
  · exact h.attr? hv x hx
  · exact Value.tickless_item? hv x hx

theorem gives_iterate (m : Machine) (hv : v.Tickless) : Gives (m.iterate v) fun vs => ∀ x ∈ vs, x.Tickless := by
  unfold Machine.iterate
  split
  · split
    · apply Gives.ok
      intro x hx
      obtain ⟨n, -, rfl⟩ := List.mem_map.1 hx
      exact .text _ _
    · exact Value.gives_iterate hv
  · exact Value.gives_iterate hv

end Machine

end SecureLayout.Template
