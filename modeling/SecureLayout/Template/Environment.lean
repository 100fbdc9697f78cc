import SecureLayout.Template.Evaluation
import SecureLayout.Template.Expansion
import SecureLayout.Template.Parser

/-!
Layouts that are compiled under a policy and rendered within its budget. Main statement: a render looks
at the data only through the secure context.
-/

namespace SecureLayout

open Template

/-- Compiled templates and the budget of the last render. -/
structure TemplateEnvironment where
  policy : SecurityPolicy
  /-- Components a layout may name; without a registry the policy alone decides. -/
  registry : Option Component.Registry
  templates : Entries (List Stmt) := []
  budget : Budget

namespace TemplateEnvironment

/-- A line that holds nothing but a statement leaves no trace in the output. -/
def blockSpace : BlockSpace := .layout

/-- The statements of a layout source. -/
def compileSource (policy : SecurityPolicy) (registry : Option Component.Registry)
    (name source : String) : Result (List Stmt) := do
  let expanded ← expand policy registry source.toList
  match parse blockSpace name expanded with
  | .ok stmts => .ok stmts
  | .error e => .error (e.toFailure false)

/-- Compiles every source; the first fault in the order of the names is reported. -/
def compile (policy : SecurityPolicy) (registry : Option Component.Registry)
    (sources : Entries String) : Result TemplateEnvironment := do
  let templates ← sources.mapM fun (name, source) => do
    return (name, ← compileSource policy registry name source)
  return { policy, registry, templates, budget := { max := policy.maxIterations } }

/-- Loop bodies that the last render asked for. -/
def lastIterationCount (env : TemplateEnvironment) : Nat :=
  env.budget.count

/-- What a render looks at: the part of the data that the policy lets through. -/
def world (env : TemplateEnvironment) (data : Json.Value) : World :=
  { templates := env.templates, policy := env.policy, registry := env.registry
    data := .ofJson (env.policy.secureContext data) }

/-- Runs a compiled template with the whole budget. -/
def run (env : TemplateEnvironment) (name : String) (stmts : List Stmt) (data : Json.Value) :
    Except Error String × Machine :=
  renderBody (env.world data) name stmts env.budget.reset

/-- Renders a compiled template; the budget stays as the run leaves it. -/
def renderStmts (env : TemplateEnvironment) (name : String) (stmts : List Stmt) (data : Json.Value) :
    Result String × TemplateEnvironment :=
  let (r, m) := env.run name stmts data
  (r.mapError fun e => e.toFailure m.budget.tripped, { env with budget := m.budget })

def render (env : TemplateEnvironment) (name : String) (data : Json.Value) :
    Result String × TemplateEnvironment :=
  match Entries.get? name env.templates with
  | some stmts => env.renderStmts name stmts data
  | none =>
    (.error ((missingTemplate name).toFailure false), { env with budget := env.budget.reset })

/-- Name of a source that is no template of the environment. -/
def unnamed : String := "<string>"

/-- Renders a source; the budget stays as it was when its directives are at fault. -/
def renderString (env : TemplateEnvironment) (source : String) (data : Json.Value) :
    Result String × TemplateEnvironment :=
  match expand env.policy env.registry source.toList with
  | .error e => (.error e, env)
  | .ok expanded =>
    match parse blockSpace unnamed expanded with
    | .error e => (.error (e.toFailure false), { env with budget := env.budget.reset })
    | .ok stmts => env.renderStmts unnamed stmts data

theorem world_secureContext (env : TemplateEnvironment) (data : Json.Value) :
    env.world (env.policy.secureContext data) = env.world data := by
  simp [world, SecurityPolicy.secureContext_idem]

theorem renderStmts_secureContext (env : TemplateEnvironment) (name : String) (stmts : List Stmt)
    (data : Json.Value) :
    env.renderStmts name stmts (env.policy.secureContext data) = env.renderStmts name stmts data := by
  unfold renderStmts run
  rw [world_secureContext]

end TemplateEnvironment

end SecureLayout
