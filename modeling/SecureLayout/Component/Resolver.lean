import SecureLayout.Component.Registry
import SecureLayout.Policy.Allowlist

/-!
From a name to an implementation while markup is painted. A name is unknown before it is disallowed;
every refusal is reported.
-/

namespace SecureLayout.Component

open Policy (ComponentAllowlist)

inductive Resolution where
  | unknown
  | disallowed
  | resolved (h : Handle)

/-- A refusal that is reported to the application. -/
inductive Refusal where
  | unknown (name : String)
  | disallowed (name : String)
  deriving DecidableEq, Repr

structure Resolver where
  allowed : ComponentAllowlist := .allowAll

namespace Resolver

def classify (s : Resolver) (r : Registry) (name : String) : Resolution :=
  match r.get? name with
  | none => .unknown
  | some e => if s.allowed.isAllowed name then .resolved e.handle else .disallowed

/-- The handle of a name, or the refusal to report. -/
def resolve (s : Resolver) (r : Registry) (name : String) : Except Refusal Handle :=
  match s.classify r name with
  | .unknown => .error (.unknown name)
  | .disallowed => .error (.disallowed name)
  | .resolved h => .ok h

def canResolve (s : Resolver) (r : Registry) (name : String) : Bool :=
  match s.classify r name with
  | .resolved _ => true
  | _ => false

/-- Registered names that are allowed, in order. -/
def allowedNames (s : Resolver) (r : Registry) : List String :=
  r.names.filter s.allowed.isAllowed

end Resolver

end SecureLayout.Component
