import SecureLayout.Proofs.Template.Bounded
import SecureLayout.Proofs.Template.Spending

/-!
Calls of one environment after each other. Main statements: a call leaves the environment as it was, up to what the
budget counted; and what a call answers and counts is what it would answer and count on a fresh environment, whatever
was called before, `renders_independent`.
-/

namespace SecureLayout

open Template

namespace TemplateEnvironment

variable {env : TemplateEnvironment} {b : Budget} {call : Rendering} {data : Json.Value}

/-! ### One call -/

theorem reset_of_max (h : b.max = env.budget.max) : b.reset = env.budget.reset := by
  rw [Budget.reset, Budget.reset, h]

/-- A run begins with a whole budget, whatever was counted before. -/
theorem run_withBudget (h : b.max = env.budget.max) (name : String) (stmts : List Stmt) (data : Json.Value) :
    (env.withBudget b).run name stmts data = env.run name stmts data := by
  change renderBody (env.world data) name stmts b.reset = renderBody (env.world data) name stmts env.budget.reset
  rw [reset_of_max h]

theorem renderStmts_withBudget (h : b.max = env.budget.max) (name : String) (stmts : List Stmt) (data : Json.Value) :
    (env.withBudget b).renderStmts name stmts data = env.renderStmts name stmts data := by
  unfold renderStmts
  rw [run_withBudget h]
  rfl

theorem tells_run (env : TemplateEnvironment) (name : String) (stmts : List Stmt) (data : Json.Value) :
    (env.run name stmts data).2.budget.Tells env.budget.max :=
  tells_renderBody _ _ _ _

/-- The failure is told from the flag, and the flag from the count: a run is out of its budget if it failed after
it asked for more loop bodies than it is granted. -/
theorem renderStmts_exceeded_iff (env : TemplateEnvironment) (name : String) (stmts : List Stmt) (data : Json.Value) :
    (∃ reason, (env.renderStmts name stmts data).1 = .error (.resourceExceeded reason)) ↔
      (∃ e, (env.run name stmts data).1 = .error e) ∧
        env.budget.max < (env.renderStmts name stmts data).2.lastIterationCount := by
  have htripped := (env.tells_run name stmts data).tripped
  unfold renderStmts lastIterationCount
  dsimp only
  generalize env.run name stmts data = r at htripped ⊢
  obtain ⟨r, m⟩ := r
  dsimp only at htripped ⊢
  cases r with
  | ok out =>
    constructor
    · rintro ⟨_, ⟨⟩⟩
    · rintro ⟨⟨_, ⟨⟩⟩, _⟩
  | error e =>
    rw [htripped]
    by_cases hover : env.budget.max < m.budget.count
    · rw [decide_eq_true hover]
      exact ⟨fun _ => ⟨⟨e, rfl⟩, hover⟩, fun _ => ⟨e.message, rfl⟩⟩
    · rw [decide_eq_false hover]
      refine ⟨fun ⟨reason, hreason⟩ => ?_, fun h => absurd h.2 hover⟩
      -- No kind of error is told as an exceeded budget by itself.
      change Except.error (e.toFailure false) = _ at hreason
      unfold Error.toFailure at hreason
      rw [if_neg (by decide)] at hreason
      split at hreason <;> cases hreason

/-- Whether a call gets as far as the budget: only a source with a fault in its directives, its loops or its tags
is refused before. -/
def begins (env : TemplateEnvironment) : Rendering → Bool
  | .named _ => true
  | .source s => (expand env.policy env.registry s.toList).toOption.isSome

theorem begins_of_template? (h : (env.template? call).isSome = true) : env.begins call = true := by
  cases call with
  | named name => rfl
  | source s =>
    unfold template? at h
    unfold begins
    dsimp only at h ⊢
    split at h
    · cases h
    · next hexpand =>
      rw [hexpand]
      rfl

theorem perform_of_missing {name : String} (h : Entries.get? name env.templates = none) :
    env.perform (.named name) data =
      (.error ((missingTemplate name).toFailure false), env.withBudget env.budget.reset) := by
  unfold perform render
  dsimp only
  rw [h]
  rfl

theorem perform_of_refused {s : String} {e : Failure} (h : expand env.policy env.registry s.toList = .error e) :
    env.perform (.source s) data = (.error e, env) := by
  unfold perform renderString
  dsimp only
  rw [h]

theorem perform_of_unparsed {s : String} {expanded : List Char} {e : Error}
    (h : expand env.policy env.registry s.toList = .ok expanded) (hparse : parse blockSpace unnamed expanded = .error e) :
    env.perform (.source s) data = (.error (e.toFailure false), env.withBudget env.budget.reset) := by
  unfold perform renderString
  dsimp only
  rw [h]
  dsimp only
  rw [hparse]
  rfl

/-- How a call ends: refused before it begins, with a whole budget because nothing compiles, or after a run. -/
inductive Ends (env : TemplateEnvironment) (call : Rendering) (data : Json.Value) :
    Result String × TemplateEnvironment → Prop
  | refused {e : Failure} (h : env.begins call = false) : Ends env call data (.error e, env)
  | unfit {e : Failure} (h : env.begins call = true) : Ends env call data (.error e, env.withBudget env.budget.reset)
  | ran {name : String} {stmts : List Stmt} (h : env.begins call = true) :
      Ends env call data (env.renderStmts name stmts data)

/-- Of what was counted before, a call that begins leaves nothing, and any other call leaves all. -/
theorem perform_ends (h : b.max = env.budget.max) :
    Ends env call data (env.perform call data) ∧
      ((env.withBudget b).perform call data).1 = (env.perform call data).1 ∧
      ((env.withBudget b).perform call data).2 =
        if env.begins call then (env.perform call data).2 else env.withBudget b := by
  have hunfit : (env.withBudget b).withBudget b.reset = env.withBudget env.budget.reset := by
    rw [reset_of_max h]
    rfl
  cases hcall : env.template? call with
  | some t =>
    have hbegins := begins_of_template? (Option.isSome_of_mem hcall)
    rw [perform_some data hcall, perform_some data (template?_withBudget.trans hcall), renderStmts_withBudget h,
      if_pos hbegins]
    exact ⟨.ran hbegins, rfl, rfl⟩
  | none =>
    cases call with
    | named name =>
      have hmissing := Option.map_eq_none_iff.1 hcall
      have hother : (env.withBudget b).perform (.named name) data = _ := perform_of_missing hmissing
      rw [perform_of_missing hmissing, hother]
      exact ⟨.unfit rfl, rfl, hunfit⟩
    | source s =>
      cases hexpand : expand env.policy env.registry s.toList with
      | error e =>
        have hbegins : env.begins (.source s) = false := by
          rw [begins, hexpand]
          rfl
        have hother : (env.withBudget b).perform (.source s) data = _ := perform_of_refused hexpand
        rw [perform_of_refused hexpand, hother, hbegins]
        exact ⟨.refused hbegins, rfl, rfl⟩
      | ok expanded =>
        have hbegins : env.begins (.source s) = true := by
          rw [begins, hexpand]
          rfl
        cases hparse : parse blockSpace unnamed expanded with
        | error e =>
          have hother : (env.withBudget b).perform (.source s) data = _ := perform_of_unparsed hexpand hparse
          rw [perform_of_unparsed hexpand hparse, hother, hbegins]
          exact ⟨.unfit hbegins, rfl, hunfit⟩
        | ok stmts =>
          unfold template? at hcall
          dsimp only at hcall
          rw [hexpand] at hcall
          dsimp only at hcall
          rw [hparse] at hcall
          cases hcall

/-- A call changes nothing but the count and the flag. -/
theorem perform_snd (env : TemplateEnvironment) (call : Rendering) (data : Json.Value) :
    ∃ b, b.max = env.budget.max ∧ (env.perform call data).2 = env.withBudget b := by
  have hends : Ends env call data (env.perform call data) := (env.perform_ends (b := env.budget) rfl).1
  generalize env.perform call data = r at hends ⊢
  cases hends with
  | refused _ => exact ⟨env.budget, rfl, rfl⟩
  | unfit _ => exact ⟨env.budget.reset, rfl, rfl⟩
  | ran _ => exact ⟨_, (env.tells_run _ _ data).max, rfl⟩

/-! ### Calls after each other -/

/-- The environment after calls one after the other. -/
def performAll (env : TemplateEnvironment) (calls : List (Rendering × Json.Value)) : TemplateEnvironment :=
  calls.foldl (fun env c => (env.perform c.1 c.2).2) env

theorem performAll_eq (env : TemplateEnvironment) (calls : List (Rendering × Json.Value)) :
    ∃ b, b.max = env.budget.max ∧ env.performAll calls = env.withBudget b := by
  induction calls generalizing env with
  | nil => exact ⟨env.budget, rfl, rfl⟩
  | cons c calls ih =>
    obtain ⟨b, hb, hc⟩ := env.perform_snd c.1 c.2
    obtain ⟨b', hb', hcalls⟩ := ih (env.withBudget b)
    refine ⟨b', hb'.trans hb, ?_⟩
    change (env.perform c.1 c.2).2.performAll calls = _
    rw [hc, hcalls]
    rfl

/-- What was called before does not show in what a call answers, and not in the environment after it if it begins. -/
theorem performAll_perform (env : TemplateEnvironment) (earlier : List (Rendering × Json.Value)) (call : Rendering)
    (data : Json.Value) :
    ((env.performAll earlier).perform call data).1 = (env.perform call data).1 ∧
      (env.begins call = true → ((env.performAll earlier).perform call data).2 = (env.perform call data).2) := by
  obtain ⟨b, hb, hearlier⟩ := env.performAll_eq earlier
  obtain ⟨-, hanswer, hafter⟩ := @perform_ends env b call data hb
  rw [hearlier]
  refine ⟨hanswer, fun hbegins => ?_⟩
  rw [hafter, if_pos hbegins]

/-- Calls do not influence each other: after any calls, whether they succeed, fail, run out of their budget, name no
template or have faults in their source, a call answers what it answers as the first one on a fresh environment of the
same policy, registry and sources, and if its source compiles, it leaves the same count of loop bodies. -/
theorem renders_independent {policy : SecurityPolicy} {registry : Option Component.Registry} {sources : Entries String}
    {fresh : TemplateEnvironment} (hfresh : compile policy registry sources = .ok fresh)
    (earlier : List (Rendering × Json.Value)) (call : Rendering) (data : Json.Value) :
    fresh.lastIterationCount = 0 ∧
      ((fresh.performAll earlier).perform call data).1 = (fresh.perform call data).1 ∧
      ((fresh.template? call).isSome = true →
        ((fresh.performAll earlier).perform call data).2.lastIterationCount =
          (fresh.perform call data).2.lastIterationCount) := by
  obtain ⟨hanswer, hafter⟩ := fresh.performAll_perform earlier call data
  refine ⟨?_, hanswer, fun hcompiles => ?_⟩
  · unfold compile at hfresh
    obtain ⟨templates, -, hfresh⟩ := result_of_bind hfresh
    cases hfresh
    rfl
  · rw [hafter (begins_of_template? hcompiles)]

/-- A call that runs out of its budget, one that names no template, one that does not compile and one that is refused. -/
def misfortunes : List (Rendering × Json.Value) :=
  [(includingRounds, .null), (.named "nothing", .null), (.source "\x7b\x7b ) \x7d\x7d", .null), (includingRounds, .null),
    (.source "\x7b% for", .null)]

/-- A source with one loop body. -/
def oneRound : Rendering :=
  .source "\x7b% for i in [1] %\x7d.\x7b% endfor %\x7d"

/-- Two bodies are still counted, and the budget is still exceeded, when a call with one body begins. -/
theorem renders_independent_misfortunes : ∃ fresh, compile oneBodyPolicy none twoRounds = .ok fresh ∧
    (fresh.performAll misfortunes).lastIterationCount = 2 ∧ (fresh.performAll misfortunes).budget.tripped = true ∧
      ((fresh.performAll misfortunes).perform oneRound .null).1 = .ok "." ∧
        ((fresh.performAll misfortunes).perform oneRound .null).2.lastIterationCount = 1 := by
  have hfacts : ((compile oneBodyPolicy none twoRounds).toOption.map fun fresh =>
      ((fresh.performAll misfortunes).lastIterationCount, (fresh.performAll misfortunes).budget.tripped,
        (fresh.template? oneRound).isSome, (fresh.perform oneRound .null).1.toOption,
        (fresh.perform oneRound .null).2.lastIterationCount)) = some (2, true, true, some ".", 1) := by
    decide +kernel
  cases hfresh : compile oneBodyPolicy none twoRounds with
  | error e =>
    rw [hfresh] at hfacts
    cases hfacts
  | ok fresh =>
    rw [hfresh] at hfacts
    simp only [Except.toOption, Option.map_some, Option.some.injEq, Prod.mk.injEq] at hfacts
    obtain ⟨hcount, htripped, hcompiles, hout, hlast⟩ := hfacts
    obtain ⟨-, hanswer, hafter⟩ := renders_independent hfresh misfortunes oneRound .null
    refine ⟨fresh, rfl, hcount, htripped, ?_, (hafter hcompiles).trans hlast⟩
    rw [hanswer]
    generalize (fresh.perform oneRound .null).1 = r at hout ⊢
    cases r with
    | error e => cases hout
    | ok out =>
      cases hout
      rfl

end TemplateEnvironment

end SecureLayout
