import SecureLayout.Collab.Shared
import SecureLayout.Failure
import SecureLayout.Json.Record
import SecureLayout.Sandbox.Guest
import SecureLayout.Sandbox.Manager
import SecureLayout.Template.Environment

/-!
A layout that is shown for a task: rendered, painted in a sandboxed frame, and kept in step with the
shared document while either side edits it. The task is four parts of the data of a render; the fifth, the output,
always comes from the shared document. Main statements: an unmounted session neither renders nor
changes when it is unmounted again.
-/

namespace SecureLayout

open Json (Value Raw)

structure TaskContext where
  input : Value := .null
  context : Value := .null
  config : Value := .null
  user : Value := .null
  deriving Repr, Inhabited

namespace TaskContext

/-- The data of a render. -/
def withOutput (t : TaskContext) (output : Value) : Value :=
  .ofMembers
    [("input", t.input), ("output", output), ("context", t.context), ("config", t.config),
      ("user", t.user)]

def names : List String := ["input", "context", "config", "user"]

/-- A part that is left out is `null`. -/
def ofParts (parts : List (String × Value)) : TaskContext :=
  let part (name : String) : Value := (parts.lookup name).getD .null
  { input := part "input", context := part "context", config := part "config", user := part "user" }

/-- Reads a task from JSON text. -/
def read (text : String) : Result TaskContext :=
  match Json.Reader.run (Json.Reader.openRecord "struct TaskContext" names) text with
  | .ok parts => .ok (ofParts (parts.map fun p => (p.1, p.2.toValue)))
  | .error e => .error (.badRequest e.message)

end TaskContext

end SecureLayout

namespace SecureLayout

open Collab (Shared Origin Request)
open Json (Value)
open Sandbox (IsolatedFrame HostWindow Manager MountFailure Notice)
open Wire (FieldUpdate)

/-- A session over a document whose other observers have a state of their own. -/
structure LayoutSession (σ φ : Type) where
  environment : TemplateEnvironment
  template : String
  task : TaskContext
  /-- The document, with the manager of the frame beside its observers' state. -/
  store : Shared (σ × Manager φ)
  /-- The observer that passes writes on to the frame. -/
  subscription : Nat
  isErrored : Bool := false
  isUnmounted : Bool := false

namespace LayoutSession

/-- Markup and context of a layout for the document as it is. -/
def renderPass (env : TemplateEnvironment) (template : String) (task : TaskContext) (output : Value) :
    Result (String × Value) × TemplateEnvironment :=
  let data := task.withOutput output
  let (r, env) := env.render template data
  (r.map fun html => (html, env.policy.secureContext data), env)

variable {σ φ : Type}

def manager (s : LayoutSession σ φ) : Manager φ :=
  s.store.state.2

def withManager (s : LayoutSession σ φ) (m : Manager φ) : LayoutSession σ φ :=
  { s with store := { s.store with state := (s.store.state.1, m) } }

variable [IsolatedFrame φ]

/-- Passes a write of an output field on to the frame; one that cannot be delivered is lost. -/
def forward (policy : SecurityPolicy) (u : FieldUpdate) (_origin : Origin) (x : σ × Manager φ) :
    (σ × Manager φ) × List Request :=
  if policy.isOutputField u.field then
    ((x.1, (x.2.updateContext ("output." ++ u.field) u.value).2), [])
  else (x, [])

/-- Renders the layout and mounts it. Nothing is mounted for a layout that cannot be rendered. -/
def mount (env : TemplateEnvironment) (template : String) (task : TaskContext) (store : Shared σ)
    (host : HostWindow) (frame : φ) : Except (MountFailure φ) (LayoutSession σ φ) :=
  match renderPass env template task store.document.toValue with
  | (.error e, _) => .error ⟨e, host, frame⟩
  | (.ok (html, context), environment) =>
    match Manager.mount host frame with
    | .error e => .error e
    | .ok m =>
      match m.render html context with
      | (.error e, m) => .error ⟨e, m.destroy.host, m.destroy.frame⟩
      | (.ok (), m) =>
        let (subscription, store) := (store.beside m).observe none fun _ => forward env.policy
        .ok { environment, template, task, store, subscription }

/-- Renders again from the document as it is now. -/
def rerender (s : LayoutSession σ φ) : Result Unit × LayoutSession σ φ :=
  if s.isUnmounted then (.error (.transport "session unmounted"), s)
  else
    match renderPass s.environment s.template s.task s.store.document.toValue with
    | (.error e, environment) => (.error e, { s with environment })
    | (.ok (html, context), environment) =>
      let s := { s with environment }
      match s.manager.render html context with
      | (.error e, m) => (.error e, s.withManager m)
      | (.ok (), m) => (.ok (), { s.withManager m with isErrored := false })

/-- Stops observing the document and then destroys the manager. -/
def unmount (s : LayoutSession σ φ) : LayoutSession σ φ :=
  if s.isUnmounted then s
  else
    let s := { s with store := s.store.unobserve s.subscription, isUnmounted := true }
    s.withManager s.manager.destroy

omit [IsolatedFrame φ] in
/-- Acts on a report of the guest: an edit is written if its field may be, an error marks the session. -/
def react (s : LayoutSession σ φ) : Notice → LayoutSession σ φ
  | .rendered => s
  | .outputChange field value =>
    if s.environment.policy.isOutputField field then { s with store := (s.store.set field value).2 }
    else s
  | .failed _ => { s with isErrored := true }

/-- Handles the events that were posted, and lists what they reported. -/
def pump (s : LayoutSession σ φ) : List Notice × LayoutSession σ φ :=
  let (es, m) := s.manager.takeEvents
  es.foldl (fun (ns, s) e =>
    let (n, m) := s.manager.handleEvent e
    (ns ++ n.toList, n.toList.foldl react (s.withManager m))) ([], s.withManager m)

theorem rerender_unmounted (s : LayoutSession σ φ) (h : s.isUnmounted = true) :
    s.rerender = (.error (.transport "session unmounted"), s) := by
  simp [rerender, h]

theorem unmount_unmount (s : LayoutSession σ φ) : s.unmount.unmount = s.unmount := by
  unfold unmount
  by_cases h : s.isUnmounted
  · simp [h]
  · simp [h, withManager]

end LayoutSession

end SecureLayout
