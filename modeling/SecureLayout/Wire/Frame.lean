import SecureLayout.Failure
import SecureLayout.Json.Printer
import SecureLayout.Json.Tagged

/-!
Messages between the host page and a sandboxed frame. `encode` writes one as JSON text with its kind
first; `decode?` reads any text that says the same and refuses fields that a kind does not have.
-/

namespace SecureLayout.Wire

open Json (Value Raw Decoded Slot Header)

inductive FrameMessage where
  /-- The guest has started and takes commands. -/
  | ready
  /-- Paint markup with a context. -/
  | render (html : String) (context : Value)
  /-- The guest has painted the last markup. -/
  | rendered
  /-- Set one dotted path of the guest's context. -/
  | updateContext (path : String) (value : Value)
  /-- A component of the guest has edited an output field. -/
  | outputChange (field : String) (value : Value)
  /-- The guest has met an exception. -/
  | error (text : String)
  deriving Repr, Inhabited, BEq

namespace FrameMessage

def kind : FrameMessage → String
  | ready => "READY"
  | render _ _ => "RENDER"
  | rendered => "RENDERED"
  | updateContext _ _ => "UPDATE_CONTEXT"
  | outputChange _ _ => "OUTPUT_CHANGE"
  | error _ => "ERROR"

/-- Sent by the guest; the other kinds are for the host to send. -/
def isHostBound : FrameMessage → Bool
  | render _ _ => false
  | updateContext _ _ => false
  | _ => true

def fields : FrameMessage → List (String × List Char)
  | ready => []
  | render html context => [("html", Json.renderText html.toList), ("context", context.render)]
  | rendered => []
  | updateContext path value => [("path", Json.renderText path.toList), ("value", value.render)]
  | outputChange field value => [("field", Json.renderText field.toList), ("value", value.render)]
  | error text => [("error", Json.renderText text.toList)]

def encode (m : FrameMessage) : String :=
  String.ofList (Json.renderRecord (("type", Json.renderText m.kind.toList) :: m.fields))

def family : Json.Reader.Family :=
  ⟨"SandboxMessage",
    ["READY", "RENDER", "RENDERED", "UPDATE_CONTEXT", "OUTPUT_CHANGE", "ERROR"]⟩

def header (name : String) : Header :=
  ⟨"struct variant SandboxMessage::" ++ name, true⟩

def text (name : String) : Slot String :=
  ⟨name, Raw.toText, none⟩

def any (name : String) : Slot Value :=
  ⟨name, Raw.toAny, none⟩

/-- The message of a kind from its content. -/
def ofContent (kind : String) (raw : Raw) : Decoded FrameMessage :=
  match kind with
  | "READY" => do Json.noFields raw; return ready
  | "RENDER" => do
    let (html, context) ← Json.record2 (header "Render") (text "html") (any "context") raw
    return render html context
  | "RENDERED" => do Json.noFields raw; return rendered
  | "UPDATE_CONTEXT" => do
    let (path, value) ← Json.record2 (header "UpdateContext") (text "path") (any "value") raw
    return updateContext path value
  | "OUTPUT_CHANGE" => do
    let (field, value) ← Json.record2 (header "OutputChange") (text "field") (any "value") raw
    return outputChange field value
  | "ERROR" => do return error (← Json.record1 (header "Error") (text "error") raw)
  | other => .error (.unknownVariant other family.kinds)

def decode? (s : String) : Except Json.Error FrameMessage :=
  Json.Reader.decode family ofContent s

/-- A text that holds no message is a bad request. -/
def decode (s : String) : Result FrameMessage :=
  match decode? s with
  | .ok m => .ok m
  | .error e => .error (.badRequest ("invalid sandbox message: " ++ e.message))

end FrameMessage

end SecureLayout.Wire
