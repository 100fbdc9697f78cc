import SecureLayout.Failure

/-!
Errors of compiling and evaluating a template: a kind, a detail, and the place once it is known. The
place that is set first stays.
-/

namespace SecureLayout.Template

inductive ErrorKind where
  | invalidOperation
  | syntaxError
  | templateNotFound
  | tooManyArguments
  | missingArgument
  | unknownFilter
  | unknownFunction
  | unknownTest
  | unknownMethod
  | unknownBlock
  | badEscape
  | undefinedValue
  | badInclude
  | evalBlock
  | cannotUnpack
  deriving DecidableEq, Repr

def ErrorKind.text : ErrorKind → String
  | invalidOperation => "invalid operation"
  | syntaxError => "syntax error"
  | templateNotFound => "template not found"
  | tooManyArguments => "too many arguments"
  | missingArgument => "missing argument"
  | unknownFilter => "unknown filter"
  | unknownFunction => "unknown function"
  | unknownTest => "unknown test"
  | unknownMethod => "unknown method"
  | unknownBlock => "unknown block"
  | badEscape => "bad string escape"
  | undefinedValue => "undefined value"
  | badInclude => "could not render include"
  | evalBlock => "could not render block"
  | cannotUnpack => "cannot unpack"

/-- A template and a line of it. -/
structure Site where
  template : String
  line : Nat
  deriving DecidableEq, Repr

structure Error where
  kind : ErrorKind
  detail : Option String := none
  site : Option Site := none
  deriving DecidableEq, Repr

namespace Error

def invalid (detail : String) : Error :=
  { kind := .invalidOperation, detail := some detail }

def undefinedValue : Error :=
  { kind := .undefinedValue }

def badSyntax (detail : String) : Error :=
  { kind := .syntaxError, detail := some detail }

/-- Sets the place unless one is known. -/
def atSite (e : Error) (s : Site) : Error :=
  match e.site with
  | some _ => e
  | none => { e with site := some s }

def message (e : Error) : String :=
  e.kind.text ++ (match e.detail with
    | some d => ": " ++ d
    | none => "") ++ (match e.site with
    | some s => " (in " ++ s.template ++ ":" ++ toString s.line ++ ")"
    | none => "")

/-- What the caller of a render sees. A render that ran out of its budget says so whatever the error. -/
def toFailure (e : Error) (outOfBudget : Bool) : Failure :=
  if outOfBudget then .resourceExceeded e.message
  else
    match e.kind with
    | .syntaxError => .badSyntax (e.detail.getD "invalid template") (e.site.map (·.line))
    | .templateNotFound =>
      .templateNotFound (((e.site.map (·.template)).or e.detail).getD e.message)
    | _ => .render e.message

theorem atSite_site (e : Error) (s : Site) : (e.atSite s).site.isSome := by
  unfold atSite
  cases h : e.site <;> simp [h]

theorem toFailure_of_outOfBudget (e : Error) : e.toFailure true = .resourceExceeded e.message := rfl

end Error

end SecureLayout.Template
