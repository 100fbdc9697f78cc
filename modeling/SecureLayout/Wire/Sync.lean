import SecureLayout.Failure
import SecureLayout.Json.Printer
import SecureLayout.Json.Tagged
import SecureLayout.Wire.Clock

/-!
Messages between a replica of a document and the relay. `encode` and `decode?` as for frames; the
records inside a message may be lists too, and a clock alone overlooks names it does not know.
-/

namespace SecureLayout.Wire

open Json (Value Raw Decoded Slot Header)

/-- A write to one field, the unit that replicas exchange. -/
structure FieldUpdate where
  field : String
  value : Value
  clock : Clock
  deriving Repr, Inhabited, BEq

inductive SyncMessage where
  /-- A replica names its document; the relay answers with all of it. -/
  | hello (doc client : String)
  | syncState (doc : String) (updates : List FieldUpdate)
  /-- A local write; its number comes back in the acknowledgement. -/
  | update (doc : String) (seq : Nat) (update : FieldUpdate)
  | ack (doc : String) (seq : Nat)
  /-- Presence of a client; without a state it has left. -/
  | awareness (doc client : String) (state : Option Value)
  | error (code msg : String)
  deriving Repr, Inhabited, BEq

namespace Clock

def render (c : Clock) : List Char :=
  Json.renderRecord
    [("counter", Nat.toDigits 10 c.counter), ("replica", Json.renderText c.replica.toList)]

def ofRaw (r : Raw) : Decoded Clock := do
  let (counter, replica) ← Json.record2 ⟨"struct Clock", false⟩
    ⟨"counter", Raw.toWord, none⟩ ⟨"replica", Raw.toText, none⟩ r
  return ⟨counter, replica⟩

end Clock

/-- The clock as a JSON value. -/
def Clock.toValue (c : Clock) : Value :=
  .ofMembers [("counter", .ofNat c.counter), ("replica", .text c.replica)]

namespace FieldUpdate

def render (u : FieldUpdate) : List Char :=
  Json.renderRecord
    [("field", Json.renderText u.field.toList), ("value", u.value.render), ("clock", u.clock.render)]

def ofRaw (r : Raw) : Decoded FieldUpdate := do
  let (field, value, clock) ← Json.record3 ⟨"struct FieldUpdate", true⟩
    ⟨"field", Raw.toText, none⟩ ⟨"value", Raw.toAny, none⟩ ⟨"clock", Clock.ofRaw, none⟩ r
  return ⟨field, value, clock⟩

/-- The update as a JSON value. -/
def toValue (u : FieldUpdate) : Value :=
  .ofMembers [("field", .text u.field), ("value", u.value), ("clock", u.clock.toValue)]

end FieldUpdate

namespace SyncMessage

/-- The document a message is about. -/
def doc? : SyncMessage → Option String
  | hello doc _ => some doc
  | syncState doc _ => some doc
  | update doc _ _ => some doc
  | ack doc _ => some doc
  | awareness doc _ _ => some doc
  | error _ _ => none

def kind : SyncMessage → String
  | hello _ _ => "hello"
  | syncState _ _ => "sync_state"
  | update _ _ _ => "update"
  | ack _ _ => "ack"
  | awareness _ _ _ => "awareness"
  | error _ _ => "error"

def fields : SyncMessage → List (String × List Char)
  | hello doc client =>
    [("doc", Json.renderText doc.toList), ("client", Json.renderText client.toList)]
  | syncState doc updates =>
    [("doc", Json.renderText doc.toList),
      ("updates", Json.renderList (updates.map FieldUpdate.render))]
  | update doc seq u =>
    [("doc", Json.renderText doc.toList), ("seq", Nat.toDigits 10 seq), ("update", u.render)]
  | ack doc seq => [("doc", Json.renderText doc.toList), ("seq", Nat.toDigits 10 seq)]
  | awareness doc client state =>
    [("doc", Json.renderText doc.toList), ("client", Json.renderText client.toList),
      ("state", (state.getD .null).render)]
  | error code msg => [("code", Json.renderText code.toList), ("msg", Json.renderText msg.toList)]

def encode (m : SyncMessage) : String :=
  String.ofList (Json.renderRecord (("type", Json.renderText m.kind.toList) :: m.fields))

/-- The message as a JSON value. -/
def toValue (m : SyncMessage) : Value :=
  let content : List (String × Value) :=
    match m with
    | hello doc client => [("doc", .text doc), ("client", .text client)]
    | syncState doc updates => [("doc", .text doc), ("updates", .list (updates.map FieldUpdate.toValue))]
    | update doc seq u => [("doc", .text doc), ("seq", .ofNat seq), ("update", u.toValue)]
    | ack doc seq => [("doc", .text doc), ("seq", .ofNat seq)]
    | awareness doc client state =>
      [("doc", .text doc), ("client", .text client), ("state", state.getD .null)]
    | error code msg => [("code", .text code), ("msg", .text msg)]
  .ofMembers (("type", .text m.kind) :: content)

def family : Json.Reader.Family :=
  ⟨"SyncMessage", ["hello", "sync_state", "update", "ack", "awareness", "error"]⟩

def header (name : String) : Header :=
  ⟨"struct variant SyncMessage::" ++ name, true⟩

def text (name : String) : Slot String :=
  ⟨name, Raw.toText, none⟩

def word (name : String) : Slot Nat :=
  ⟨name, Raw.toWord, none⟩

/-- The message of a kind from its content. -/
def ofContent (kind : String) (raw : Raw) : Decoded SyncMessage :=
  match kind with
  | "hello" => do
    let (doc, client) ← Json.record2 (header "Hello") (text "doc") (text "client") raw
    return hello doc client
  | "sync_state" => do
    let (doc, updates) ← Json.record2 (header "SyncState") (text "doc")
      ⟨"updates", Raw.toListOf FieldUpdate.ofRaw, none⟩ raw
    return syncState doc updates
  | "update" => do
    let (doc, seq, u) ← Json.record3 (header "Update") (text "doc") (word "seq")
      ⟨"update", FieldUpdate.ofRaw, none⟩ raw
    return update doc seq u
  | "ack" => do
    let (doc, seq) ← Json.record2 (header "Ack") (text "doc") (word "seq") raw
    return ack doc seq
  | "awareness" => do
    let (doc, client, state) ← Json.record3 (header "Awareness") (text "doc") (text "client")
      ⟨"state", Raw.toOptional, some none⟩ raw
    return awareness doc client state
  | "error" => do
    let (code, msg) ← Json.record2 (header "Error") (text "code") (text "msg") raw
    return error code msg
  | other => .error (.unknownVariant other family.kinds)

def decode? (s : String) : Except Json.Error SyncMessage :=
  Json.Reader.decode family ofContent s

/-- A text that holds no message is a bad request. -/
def decode (s : String) : Result SyncMessage :=
  match decode? s with
  | .ok m => .ok m
  | .error e => .error (.badRequest ("invalid sync message: " ++ e.message))

end SyncMessage

end SecureLayout.Wire
