import SecureLayout.Config.Address
import SecureLayout.Config.Layout
import SecureLayout.Policy.Engine

/-!
What the relay does before it listens: it finds its configuration, reads it and compiles the policy. The
first fault keeps it from starting.
-/

namespace SecureLayout.Config

/-- A configuration whose policy is compiled. -/
structure Application where
  config : LayoutConfig
  policy : SecurityPolicy

namespace Application

def compile (config : LayoutConfig) : Result Application :=
  match SecurityPolicy.compile config.security with
  | .ok policy => .ok { config, policy }
  | .error e => .error (.badRequest ("security policy compile failed: " ++ e.message))

/-- Who a ticket is for. -/
def resolveTicket (a : Application) (ticket : String) : Result String :=
  match Entries.get? ticket a.config.tickets with
  | some user => .ok user
  | none => .error .authFailed

end Application

/-- File that is read when none is named. -/
def defaultFile : String := "layoutguard.yaml"

/-- Name of the variable that may name the file. -/
def fileVariable : String := "LAYOUTGUARD_CONFIG"

/-- The first argument names the file, or else the variable. -/
def configFile (args : List String) (named : Option String) : String :=
  match args with
  | path :: _ => path
  | [] => named.getD defaultFile

/-- Reads the text of a configuration file; `none` means that there is no such text. -/
def ofFile (text : Option String) : Result LayoutConfig :=
  match text with
  | none => .error (.internal "read config failed: no text")
  | some s => LayoutConfig.read s

/-- The compiled configuration and where to listen. -/
def startup (text : Option String) : Result (Application × SocketAddress) := do
  let config ← ofFile text
  match SocketAddress.parse? config.server.listen.toList with
  | none =>
    throw (.badRequest "server.listen must be a valid SocketAddr: invalid socket address syntax")
  | some address => return (← Application.compile config, address)

/-- A failure by its kind, with what it carries in quotes. -/
def describe : Failure → String
  | .policyViolation r => "PolicyViolation(" ++ Text.quoted r ++ ")"
  | .badSyntax r line =>
    "Syntax \x7b message: " ++ Text.quoted r ++ ", line: " ++ (match line with
      | some n => "Some(" ++ toString n ++ ")"
      | none => "None") ++ " \x7d"
  | .resourceExceeded r => "ResourceExceeded(" ++ Text.quoted r ++ ")"
  | .transport r => "Transport(" ++ Text.quoted r ++ ")"
  | .unknownComponent n => "UnknownComponent(" ++ Text.quoted n ++ ")"
  | .disallowedComponent n => "DisallowedComponent(" ++ Text.quoted n ++ ")"
  | .templateNotFound n => "TemplateNotFound(" ++ Text.quoted n ++ ")"
  | .render r => "Render(" ++ Text.quoted r ++ ")"
  | .badRequest r => "BadRequest(" ++ Text.quoted r ++ ")"
  | .authFailed => "AuthFailed"
  | .internal r => "Internal(" ++ Text.quoted r ++ ")"

/-- What is printed when the relay refuses to start. -/
def refusalText (e : Failure) : String :=
  "Error: " ++ describe e

end SecureLayout.Config
