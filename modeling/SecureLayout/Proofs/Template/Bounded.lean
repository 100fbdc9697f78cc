import SecureLayout.Proofs.Template.Alike
import SecureLayout.Proofs.Template.Running

/-!
Loop bodies in one call of an environment. Main statement: a call counts every body that it enters, and where it
would enter more than the policy grants, nothing is written beyond the last one that is granted and the call says
that it ran out of its budget.
-/

namespace SecureLayout.Template

/-- A member that data does not have is no attribute of it. -/
theorem Value.lookup?_ofJsonMembers {name : String} {ms : List (String × Json.Value)} (h : ∀ m ∈ ms, m.1 ≠ name) :
    lookup? (plainText name) (ofJsonMembers ms) = Option.none := by
  induction ms with
  | nil => rfl
  | cons m ms ih =>
    obtain ⟨hne, h⟩ := List.forall_mem_cons.1 h
    have hcmp : (cmp (plainText name) (plainText m.1) == .eq) = false := by
      unfold plainText cmp compareOfLessAndEq
      split
      · rfl
      · rw [if_neg (Ne.symm hne)]
        rfl
    rw [ofJsonMembers, lookup?, hcmp]
    exact ih h

/-! ### One run -/

section Run

variable {w : World} {name : String} {stmts : List Stmt} {l : Limits} {b : Budget}

/-- The state that a run begins in. -/
def Machine.initial (name : String) (stmts : List Stmt) (b : Budget) : Machine :=
  { context := { scopes := [{ base := .data }], template := name, blocks := stacksOf name stmts, loaded := [name] }
    budget := b }

theorem Machine.Guarded.initial (hstmts : ∀ s ∈ stmts, s.Metered) : (Machine.initial name stmts b).Guarded := by
  refine ⟨⟨?_, stacksOf_metered hstmts, fun _ hp => absurd hp (Option.not_mem_none _)⟩,
    fun _ hc => absurd hc List.not_mem_nil⟩
  intro s hs
  rw [List.mem_singleton.1 hs]
  exact ⟨fun _ he => absurd he List.not_mem_nil, fun _ he => absurd he List.not_mem_nil,
    fun _ hl => absurd hl (Option.not_mem_none _)⟩

theorem Paired.output {p : Unit → Prop} {r r' : Except Error Unit × Machine} (h : Paired l p r r') :
    Paired l (fun _ => True) (r.1.map fun _ => r.2.context.out, r.2) (r'.1.map fun _ => r'.2.context.out, r'.2) := by
  cases h with
  | ok _ hm hw => exact .ok trivial hm hw
  | error hw => exact .error hw
  | beyond h => exact .beyond h

/-- A run under one limit beside the same run under a larger one. -/
theorem renderBody_paired (hw : w.Guarded) (hstmts : ∀ s ∈ stmts, s.Metered) (hmax : b.max = l.low) :
    Paired l (fun _ => True) (renderBody w name stmts b.reset) (renderBody w name stmts { b.reset with max := l.high }) := by
  have hrun := ((evaluates hw l (roomFor stmts)).body ⟨name, stmts⟩ hstmts).run (.initial name stmts b.reset)
    (.initial hstmts) ⟨hmax, rfl, Nat.zero_le _, rfl, Nat.zero_le _⟩
  unfold renderBody
  -- The room is a large number that nothing may unfold.
  generalize roomFor stmts = room at hrun ⊢
  exact hrun.output

end Run

end SecureLayout.Template

namespace SecureLayout

open Template

/-! ### Calls -/

/-- A call that renders: a template by its name, or a source. -/
inductive Rendering where
  | named (name : String)
  | source (source : String)

/-- A source that is rendered is read alike; templates by name were read when they were compiled. -/
def Rendering.IsReadAlike : Rendering → Prop
  | named _ => True
  | source s => ReadAlike s.toList

namespace TemplateEnvironment

def perform (env : TemplateEnvironment) (call : Rendering) (data : Json.Value) : Result String × TemplateEnvironment :=
  match call with
  | .named name => env.render name data
  | .source s => env.renderString s data

/-- The template that a call runs, unless it is refused before. -/
def template? (env : TemplateEnvironment) : Rendering → Option (String × List Stmt)
  | .named name => (Entries.get? name env.templates).map fun stmts => (name, stmts)
  | .source s =>
    match expand env.policy env.registry s.toList with
    | .error _ => none
    | .ok expanded =>
      match parse blockSpace unnamed expanded with
      | .error _ => none
      | .ok stmts => some (unnamed, stmts)

/-- The state that the run of a call ends in. -/
def lastState? (env : TemplateEnvironment) (call : Rendering) (data : Json.Value) : Option Machine :=
  (env.template? call).map fun t => (env.run t.1 t.2 data).2

/-- Loop bodies that a call enters. -/
def bodies (env : TemplateEnvironment) (call : Rendering) (data : Json.Value) : Nat :=
  ((env.lastState? call data).map Machine.entered).getD 0

/-- The same templates with a budget that other calls have left. -/
def withBudget (env : TemplateEnvironment) (b : Budget) : TemplateEnvironment :=
  { env with budget := b }

variable {env : TemplateEnvironment} {call : Rendering} {b : Budget} (data : Json.Value)

theorem perform_some {t : String × List Stmt} (h : env.template? call = some t) :
    env.perform call data = env.renderStmts t.1 t.2 data := by
  cases call with
  | named name =>
    obtain ⟨stmts, hstmts, rfl⟩ := Option.map_eq_some_iff.1 h
    unfold perform render
    dsimp only
    rw [hstmts]
  | source s =>
    unfold perform renderString
    unfold template? at h
    dsimp only at h ⊢
    cases hexpand : expand env.policy env.registry s.toList with
    | error e =>
      rw [hexpand] at h
      cases h
    | ok x =>
      rw [hexpand] at h
      dsimp only at h ⊢
      cases hparse : parse blockSpace unnamed x with
      | error e =>
        rw [hparse] at h
        cases h
      | ok stmts =>
        rw [hparse] at h
        cases h
        rfl

/-! ### Environments that count -/

/-- Every loop of the environment counts its bodies, and no data hides the function that counts. -/
structure Metered (env : TemplateEnvironment) : Prop where
  templates : ∀ t ∈ env.templates, ∀ s ∈ t.2, s.Metered
  hidden : env.policy.roots.contains tickFunction = false

theorem Metered.world (h : env.Metered) : (env.world data).Guarded := by
  refine ⟨h.templates, Value.tickless_ofJson _, ?_⟩
  apply Value.lookup?_ofJsonMembers
  intro m hm heq
  have hroot := (List.mem_filter.1 hm).2
  rw [heq, h.hidden] at hroot
  cases hroot

theorem Metered.template (h : env.Metered) (hcall : call.IsReadAlike) :
    ∀ t ∈ env.template? call, ∀ s ∈ t.2, s.Metered := by
  intro t ht
  cases call with
  | named name =>
    obtain ⟨stmts, hstmts, rfl⟩ := Option.map_eq_some_iff.1 ht
    exact h.templates _ (Entries.mem_of_get? hstmts)
  | source s =>
    unfold template? at ht
    dsimp only at ht
    split at ht
    · cases ht
    · next hexpand =>
      split at ht
      · cases ht
      · next hparse =>
        cases ht
        exact ReadAlike.metered hcall hexpand hparse

/-! ### Calls within the budget -/

/-- A call under one limit beside the same call under a larger one. -/
theorem Metered.paired (h : env.Metered) (hcall : call.IsReadAlike) {t : String × List Stmt}
    (ht : env.template? call = some t) (l : Limits) (hmax : b.max = l.low) :
    Paired l (fun _ => True) ((env.withBudget b).run t.1 t.2 data)
      ((env.withBudget { b with max := l.high }).run t.1 t.2 data) :=
  renderBody_paired (h.world data) (h.template hcall t ht) hmax

theorem template?_withBudget : (env.withBudget b).template? call = env.template? call := by
  cases call <;> rfl

/-- A call counts every body that it enters, and enters one more than it is granted at most. -/
theorem Metered.counted (h : env.Metered) (hcall : call.IsReadAlike) {t : String × List Stmt}
    (ht : env.template? call = some t) :
    ((env.withBudget b).run t.1 t.2 data).2.budget.count = ((env.withBudget b).run t.1 t.2 data).2.entered ∧
      ((env.withBudget b).run t.1 t.2 data).2.entered ≤ b.max + 1 := by
  have hpaired := h.paired (b := b) data hcall ht ⟨b.max, b.max + 1, Nat.le_succ _⟩ rfl
  generalize (env.withBudget b).run t.1 t.2 data = r at hpaired ⊢
  generalize (env.withBudget _).run t.1 t.2 data = r' at hpaired
  cases hpaired with
  | ok _ _ hw => exact ⟨hw.count, Nat.le_succ_of_le hw.granted⟩
  | error hw => exact ⟨hw.count, Nat.le_succ_of_le hw.granted⟩
  | beyond hb => exact ⟨hb.count, Nat.le_of_eq hb.refused⟩

/-- A call that returns a text counts no more bodies than it is granted. -/
theorem Metered.granted (h : env.Metered) (hcall : call.IsReadAlike) {t : String × List Stmt}
    (ht : env.template? call = some t) {out : String} (hout : ((env.withBudget b).run t.1 t.2 data).1 = .ok out) :
    ((env.withBudget b).run t.1 t.2 data).2.entered ≤ b.max := by
  have hpaired := h.paired (b := b) data hcall ht ⟨b.max, b.max + 1, Nat.le_succ _⟩ rfl
  generalize (env.withBudget b).run t.1 t.2 data = r at hpaired hout ⊢
  generalize (env.withBudget _).run t.1 t.2 data = r' at hpaired
  cases hpaired with
  | ok _ _ hw => exact hw.granted
  | error _ => cases hout
  | beyond _ => cases hout

/-- A call that would enter more bodies under another limit ends at the first that is not granted. -/
theorem Metered.refused (h : env.Metered) (hcall : call.IsReadAlike) {t : String × List Stmt}
    (ht : env.template? call = some t) {n : Nat}
    (hn : b.max < ((env.withBudget { b with max := n }).run t.1 t.2 data).2.entered) :
    ((env.withBudget b).run t.1 t.2 data).2.Beyond b.max ∧ ∃ e, ((env.withBudget b).run t.1 t.2 data).1 = .error e := by
  have hle : b.max ≤ n := by
    have hentered := (h.counted (b := { b with max := n }) data hcall ht).2
    change _ ≤ n + 1 at hentered
    omega
  have hpaired := h.paired (b := b) data hcall ht ⟨b.max, n, hle⟩ rfl
  change Paired _ _ _ ((env.withBudget { b with max := n }).run t.1 t.2 data) at hpaired
  generalize (env.withBudget { b with max := n }).run t.1 t.2 data = r' at hpaired hn
  generalize (env.withBudget b).run t.1 t.2 data = r at hpaired ⊢
  cases hpaired with
  | ok _ _ hw => exact absurd hw.granted (Nat.not_le.2 hn)
  | error hw => exact absurd hw.granted (Nat.not_le.2 hn)
  | beyond hb => exact ⟨hb, _, rfl⟩

/-- Settings that grant one loop body. -/
def oneBody : Policy.Settings :=
  { bindingPathPattern := "", maxIterations := 1 }

def oneBodyPolicy : SecurityPolicy :=
  { components := .allowAll, roots := .compile oneBody.expressionAllowlist, bindingPath := .empty
    maxDepth := oneBody.maxDepth, maxIterations := oneBody.maxIterations }

/-- A template with a loop over two values. -/
def twoRounds : Entries String :=
  [("rounds", "\x7b% for i in [1, 2] %\x7d.\x7b% endfor %\x7d")]

/-- A source that includes the template. -/
def includingRounds : Rendering :=
  .source "\x7b% include 'rounds' %\x7d"

end TemplateEnvironment

end SecureLayout
