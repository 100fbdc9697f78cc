/-!
Failures a caller sees: eleven kinds, each with a stable code and a text of its own.
-/

namespace SecureLayout

/-- The part of a failure that never changes once published; it travels in error messages. -/
inductive Code where
  | policyViolation
  | syntaxError
  | resourceExceeded
  | transportError
  | unknownComponent
  | disallowedComponent
  | templateNotFound
  | renderError
  | badRequest
  | authFailed
  | internal
  deriving DecidableEq, Repr

def Code.text : Code → String
  | policyViolation => "POLICY_VIOLATION"
  | syntaxError => "SYNTAX_ERROR"
  | resourceExceeded => "RESOURCE_EXCEEDED"
  | transportError => "TRANSPORT_ERROR"
  | unknownComponent => "UNKNOWN_COMPONENT"
  | disallowedComponent => "DISALLOWED_COMPONENT"
  | templateNotFound => "TEMPLATE_NOT_FOUND"
  | renderError => "RENDER_ERROR"
  | badRequest => "BAD_REQUEST"
  | authFailed => "AUTH_FAILED"
  | internal => "INTERNAL"

inductive Failure where
  | policyViolation (reason : String)
  /-- A line is known only when a place in a source is to blame. -/
  | badSyntax (reason : String) (line : Option Nat)
  | resourceExceeded (reason : String)
  | transport (reason : String)
  | unknownComponent (name : String)
  | disallowedComponent (name : String)
  | templateNotFound (name : String)
  | render (reason : String)
  | badRequest (reason : String)
  | authFailed
  | internal (reason : String)
  deriving DecidableEq, Repr

namespace Failure

def code : Failure → Code
  | policyViolation _ => .policyViolation
  | badSyntax _ _ => .syntaxError
  | resourceExceeded _ => .resourceExceeded
  | transport _ => .transportError
  | unknownComponent _ => .unknownComponent
  | disallowedComponent _ => .disallowedComponent
  | templateNotFound _ => .templateNotFound
  | render _ => .renderError
  | badRequest _ => .badRequest
  | authFailed => .authFailed
  | internal _ => .internal

def message : Failure → String
  | policyViolation r => "policy violation: " ++ r
  | badSyntax r none => "syntax error: " ++ r
  | badSyntax r (some line) => "syntax error at line " ++ toString line ++ ": " ++ r
  | resourceExceeded r => "resource exceeded: " ++ r
  | transport r => "transport error: " ++ r
  | unknownComponent n => "unknown component: " ++ n
  | disallowedComponent n => "component not allowed: " ++ n
  | templateNotFound n => "template not found: " ++ n
  | render r => "render failed: " ++ r
  | badRequest r => "bad request: " ++ r
  | authFailed => "auth failed"
  | internal r => "internal: " ++ r

end Failure

/-- What an operation answers: a value or a failure. -/
abbrev Result (α : Type) := Except Failure α

end SecureLayout
