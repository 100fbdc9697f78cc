import SecureLayout.Failure
import SecureLayout.Json.Value
import SecureLayout.Numeric.Power
import SecureLayout.Pattern.Reading
import SecureLayout.Text.Quoted

/-!
Settings of a policy, as an administrator writes them. `validate` says which settings are refused, and
of several faults which one is reported.
-/

namespace SecureLayout.Policy

open Json (Value)

structure Settings where
  /-- Components a layout may name; none listed means every component. -/
  allowedComponents : List String := []
  /-- Form of a binding path. -/
  bindingPathPattern : String := "^[A-Za-z_][A-Za-z0-9_]*(\\.[A-Za-z_][A-Za-z0-9_]*)*$"
  /-- First segments that a binding path may have. -/
  expressionAllowlist : List String := ["input", "output", "context", "config", "user"]
  /-- Loops may stand in each other this deep. -/
  maxDepth : Nat := 10
  /-- Loop bodies that one render may enter. -/
  maxIterations : Nat := 1000
  deriving DecidableEq, Repr

namespace Settings

/-- Every root must be an identifier; the first that is not is named. -/
def validateRoots (roots : List String) : Result Unit :=
  match roots.find? fun r => !Text.isIdentifier r with
  | none => .ok ()
  | some r =>
    .error (.badRequest ("security.expression_allowlist entry is not an identifier: " ++ Text.quoted r))

def validate (s : Settings) : Result Unit :=
  if s.maxIterations = 0 then .error (.badRequest "security.max_iterations must be at least 1")
  else if s.maxDepth = 0 then .error (.badRequest "security.max_depth must be at least 1")
  else if (Pattern.ofText? s.bindingPathPattern).isNone then
    .error (.badRequest "security.binding_path_pattern invalid: not a pattern")
  else validateRoots s.expressionAllowlist

/-! ### Settings as a JSON value -/

def words? : Value → Option (List String)
  | .list vs => vs.mapM fun
    | .text s => some s
    | _ => none
  | _ => none

def text? : Value → Option String
  | .text s => some s
  | _ => none

/-- Sizes are 64-bit words. -/
def size? : Value → Option Nat
  | .number (.int n) => if 0 ≤ n && n < Numeric.twoTo 64 then some n.toNat else none
  | _ => none

/-- One named setting replaced; a name that is not a setting's is refused. -/
def set? (s : Settings) (name : String) (v : Value) : Option Settings :=
  match name with
  | "allowed_components" => (words? v).map fun x => { s with allowedComponents := x }
  | "binding_path_pattern" => (text? v).map fun x => { s with bindingPathPattern := x }
  | "expression_allowlist" => (words? v).map fun x => { s with expressionAllowlist := x }
  | "max_depth" => (size? v).map fun x => { s with maxDepth := x }
  | "max_iterations" => (size? v).map fun x => { s with maxIterations := x }
  | _ => none

def names : List String :=
  ["allowed_components", "binding_path_pattern", "expression_allowlist", "max_depth", "max_iterations"]

/-- An object of settings, or a list of them in order; what is left out keeps its default. -/
def ofJson? : Value → Option Settings
  | .object ms => ms.foldlM (fun s m => s.set? m.1 m.2) {}
  | .list vs =>
    if vs.length ≤ names.length then (names.zip vs).foldlM (fun s m => s.set? m.1 m.2) {} else none
  | _ => none

/-- Settings given as a JSON value; a value that holds none is a bad request. -/
def ofJson (v : Value) : Result Settings :=
  match ofJson? v with
  | some s => .ok s
  | none => .error (.badRequest "config json: not a security configuration")

end Settings

end SecureLayout.Policy
