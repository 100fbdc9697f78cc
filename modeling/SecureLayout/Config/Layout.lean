import SecureLayout.Config.Server
import SecureLayout.Entries
import SecureLayout.Numeric.Power
import SecureLayout.Policy.Settings
import SecureLayout.Yaml.Node

/-!
The configuration file of the relay. A file that is not well formed, or that holds an unknown, repeated
or wrongly typed setting, is refused as a whole; then the settings are checked one section after the
other.
-/

namespace SecureLayout.Config

open Policy (Settings)
open Yaml (Node)

structure LayoutConfig where
  version : Nat
  server : ServerSettings := {}
  security : Settings := {}
  /-- Who a ticket is for. -/
  tickets : Entries String := []
  deriving DecidableEq, Repr

/-! ### Settings as nodes -/

/-- Any scalar is a text, however it is written. -/
def text? : Node → Option String
  | .scalar s _ => some s
  | _ => none

/-- Digits of a base, without a sign. -/
def digits? (base : Nat) (s : List Char) : Option Nat :=
  if s.isEmpty then none
  else s.foldlM (fun n c => ((Yaml.hexDigit? c).filter (· < base)).map (base * n + ·)) 0

/-- Digits in base ten; more than one with a zero in front are no number. -/
def decimal? (s : List Char) : Option Nat :=
  if 1 < s.length && s.head? == some '0' && s.all Char.isDigit then none else digits? 10 s

/-- A natural number, written plainly and possibly in another base. -/
def natural? : Node → Option Nat
  | .scalar s true =>
    let cs := s.toList
    let signed := cs.head? == some '+'
    let cs := if signed then cs.drop 1 else cs
    match cs with
    | '0' :: 'x' :: r => digits? 16 r
    | '0' :: 'o' :: r => digits? 8 r
    | '0' :: 'b' :: r => digits? 2 r
    | r => decimal? r
  | _ => none

/-- A natural number below a bound. -/
def below? (bound : Nat) (n : Node) : Option Nat :=
  (natural? n).filter (· < bound)

/-- Entries of a mapping; nothing written is an empty one. -/
def entries? : Node → Option (List (Node × Node))
  | .mapping es => some es
  | .scalar "" true => some []
  | _ => none

def texts? : Node → Option (List String)
  | .sequence ns => ns.mapM text?
  | .scalar "" true => some []
  | _ => none

/-- Reads named settings one after the other; a name may be given once. -/
def sections? {α : Type} (set : α → String → Node → Option α) (a : α) (n : Node) : Option α := do
  let es ← entries? n
  let named ← es.mapM fun (k, v) => (text? k).map (·, v)
  if !(named.map (·.1)).Nodup then none
  named.foldlM (fun a e => set a e.1 e.2) a

/-- Sizes are words of 64 bits. -/
def word? : Node → Option Nat := below? (Numeric.twoTo 64)

def setServer? (s : ServerSettings) (name : String) (v : Node) : Option ServerSettings :=
  match name with
  | "listen" => (text? v).map fun x => { s with listen := x }
  | "ping_interval_ms" => (word? v).map fun x => { s with pingInterval := x }
  | "idle_timeout_ms" => (word? v).map fun x => { s with idleTimeout := x }
  | _ => none

def setSecurity? (s : Settings) (name : String) (v : Node) : Option Settings :=
  match name with
  | "allowed_components" => (texts? v).map fun x => { s with allowedComponents := x }
  | "binding_path_pattern" => (text? v).map fun x => { s with bindingPathPattern := x }
  | "expression_allowlist" => (texts? v).map fun x => { s with expressionAllowlist := x }
  | "max_depth" => (word? v).map fun x => { s with maxDepth := x }
  | "max_iterations" => (word? v).map fun x => { s with maxIterations := x }
  | _ => none

/-- A table of texts; of two entries with one key the later counts. -/
def table? (n : Node) : Option (Entries String) := do
  let es ← entries? n
  return Entries.ofList (← es.mapM fun (k, v) => do return (← text? k, ← text? v))

/-- A configuration whose version may still be missing. -/
structure Draft where
  version : Option Nat := none
  server : ServerSettings := {}
  security : Settings := {}
  tickets : Entries String := []

def Draft.set? (d : Draft) (name : String) (v : Node) : Option Draft :=
  match name with
  | "version" => (below? (Numeric.twoTo 32) v).map fun x => { d with version := some x }
  | "server" => (sections? setServer? {} v).map fun x => { d with server := x }
  | "security" => (sections? setSecurity? {} v).map fun x => { d with security := x }
  | "tickets" => (table? v).map fun x => { d with tickets := x }
  | _ => none

namespace LayoutConfig

def ofNode? (n : Node) : Option LayoutConfig := do
  let d ← sections? Draft.set? {} n
  return { version := ← d.version, server := d.server, security := d.security, tickets := d.tickets }

def validate (c : LayoutConfig) : Result Unit := do
  if c.version != 1 then
    throw (.badRequest ("unsupported config version: " ++ toString c.version))
  c.server.validate
  c.security.validate

/-- Reads and checks the text of a configuration file. -/
def read (source : String) : Result LayoutConfig :=
  match (Node.read source.toList).bind ofNode? with
  | none => .error (.badRequest "invalid yaml: not a configuration")
  | some c => do
    c.validate
    return c

/-- The configuration as a JSON value. -/
def toValue (c : LayoutConfig) : Json.Value :=
  .ofMembers
    [("version", .ofNat c.version),
      ("server", .ofMembers
        [("listen", .text c.server.listen), ("ping_interval_ms", .ofNat c.server.pingInterval),
          ("idle_timeout_ms", .ofNat c.server.idleTimeout)]),
      ("security", .ofMembers
        [("allowed_components", .list (c.security.allowedComponents.map .text)),
          ("binding_path_pattern", .text c.security.bindingPathPattern),
          ("expression_allowlist", .list (c.security.expressionAllowlist.map .text)),
          ("max_depth", .ofNat c.security.maxDepth),
          ("max_iterations", .ofNat c.security.maxIterations)]),
      ("tickets", .object (Entries.mapValues .text c.tickets))]

theorem validate_of_read {source : String} {c : LayoutConfig} (h : read source = .ok c) :
    c.validate = .ok () := by
  unfold read at h
  split at h
  · cases h
  · next d _ =>
    cases hv : d.validate with
    | error e => simp [hv, bind, Except.bind] at h
    | ok u =>
      simp only [hv, bind, Except.bind, pure, Except.pure, Except.ok.injEq] at h
      exact h ▸ hv

end LayoutConfig

end SecureLayout.Config
