import SecureLayout.Policy.Allowlist
import SecureLayout.Policy.Settings

/-!
The compiled policy: which components and binding paths a layout may use, and which part of the data
it sees. Main statement: the secure context holds allowed roots only.
-/

namespace SecureLayout

open Json (Value)

/-- A dotted path that a layout binds to. -/
structure Expression where
  path : String
  deriving DecidableEq, Repr

namespace Expression

def segments (e : Expression) : List String :=
  (Text.splitOnChar '.' e.path.toList).map String.ofList

/-- What stands before the first dot. -/
def root (e : Expression) : String :=
  String.ofList (e.path.toList.takeWhile (· != '.'))

end Expression

namespace Policy

inductive Decision where
  | pass
  | deny (code : Code) (reason : String)
  deriving DecidableEq, Repr

def Decision.isPass : Decision → Bool
  | pass => true
  | deny _ _ => false

end Policy

structure SecurityPolicy where
  components : Policy.ComponentAllowlist
  roots : Policy.RootAllowlist
  bindingPath : Pattern
  maxDepth : Nat
  maxIterations : Nat
  deriving Repr

namespace SecurityPolicy

open Policy

/-- Settings that are refused make no policy. -/
def compile (s : Settings) : Result SecurityPolicy := do
  s.validate
  match Pattern.ofText? s.bindingPathPattern with
  | none => .error (.badRequest "binding_path_pattern invalid: not a pattern")
  | some bindingPath =>
    let components ← ComponentAllowlist.compile s.allowedComponents
    return { components, roots := .compile s.expressionAllowlist, bindingPath,
             maxDepth := s.maxDepth, maxIterations := s.maxIterations }

/-- A policy keeps the roots and the limits of its settings, which are not refused. -/
theorem compile_ok {s : Settings} {p : SecurityPolicy} (h : compile s = .ok p) :
    s.validate = .ok () ∧ p.roots = .compile s.expressionAllowlist ∧ p.maxDepth = s.maxDepth ∧
      p.maxIterations = s.maxIterations := by
  unfold compile at h
  cases hvalid : s.validate with
  | error e =>
    rw [hvalid] at h
    cases h
  | ok u =>
    rw [hvalid] at h
    change (match Pattern.ofText? s.bindingPathPattern with | none => _ | some _ => _) = _ at h
    split at h
    · cases h
    · cases hnames : ComponentAllowlist.compile s.allowedComponents with
      | error e =>
        rw [hnames] at h
        cases h
      | ok components =>
        rw [hnames] at h
        cases h
        exact ⟨rfl, rfl, rfl, rfl⟩

/-- A path needs an allowed root and the form of the pattern. -/
def checkExpression (p : SecurityPolicy) (path : String) : Decision :=
  if !p.roots.contains (Expression.root ⟨path⟩) then
    .deny .policyViolation "root not in expression allowlist"
  else if !p.bindingPath.isMatch path then
    .deny .policyViolation "path does not match binding pattern"
  else .pass

def validateExpression (p : SecurityPolicy) (path : String) : Bool :=
  (p.checkExpression path).isPass

/-- Whether a field of the output may be seen and written. -/
def isOutputField (p : SecurityPolicy) (field : String) : Bool :=
  p.validateExpression ("output." ++ field)

def checkComponent (p : SecurityPolicy) (name : String) : Decision :=
  if p.components.isAllowed name then .pass
  else .deny .disallowedComponent "component not in allowlist"

def validateComponent (p : SecurityPolicy) (name : String) : Bool :=
  (p.checkComponent name).isPass

/-- The members of the data under allowed roots, unchanged; nothing of data that is no object. -/
def secureContext (p : SecurityPolicy) (data : Value) : Value :=
  .object (data.members.filter fun m => p.roots.contains m.1)

theorem members_secureContext (p : SecurityPolicy) (data : Value) :
    (p.secureContext data).members = data.members.filter fun m => p.roots.contains m.1 := rfl

theorem secureContext_idem (p : SecurityPolicy) (data : Value) :
    p.secureContext (p.secureContext data) = p.secureContext data := by
  simp [secureContext, Value.members]

end SecurityPolicy

end SecureLayout
