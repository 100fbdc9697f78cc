import SecureLayout.Collab.Hub
import SecureLayout.Config.Startup
import SecureLayout.Relay.Session
import SecureLayout.Relay.Target

/-!
The relay as its clients see it: connections under names, and a clock that moves only when it is told to.
Whatever a session causes at the hub reaches the other sessions before anything else happens.
-/

namespace SecureLayout.Relay

open Collab (Hub)
open Config (Application)
open Wire (SocketFrame)

/-- A connection, from the client's side. -/
structure Connection where
  /-- Without a session the relay has closed the connection. -/
  session : Option Session
  /-- Frames that the client has not read yet. -/
  received : List SocketFrame := []

structure Endpoint where
  application : Application
  hub : Hub
  now : Nat := 0
  connections : Entries Connection := []

/-- The hub after a reaction: it handles what is for it, and a session that ends takes its peer along. -/
def Reaction.atHub (r : Reaction) (peer : Nat) (h : Hub) : Hub :=
  let h := match r.forHub with
    | some m => h.handle peer m
    | none => h
  if r.stays then h else h.disconnect peer

namespace Endpoint

def ofApplication (a : Application) : Endpoint :=
  { application := a, hub := { policy := a.policy } }

def put (e : Endpoint) (client : String) (c : Connection) : Endpoint :=
  { e with connections := Entries.put client c e.connections }

/-- Wakes the session of a client and does what it asks for. -/
def wake (e : Endpoint) (client : String) (x : Signal) : Endpoint :=
  match Entries.get? client e.connections with
  | some { session := some s, received } =>
    let (r, s) := s.react e.application.config.server e.now x
    { e with hub := r.atHub s.peer e.hub }.put client
      { session := if r.stays then some s else none, received := received ++ r.frames }
  | _ => e

/-- Hands a client's session the next message that the hub has for it, or tells it that there will be none:
the hub has dropped its peer. -/
def forward (e : Endpoint) (client : String) : Endpoint :=
  match (Entries.get? client e.connections).bind (·.session) with
  | none => e
  | some s =>
    match e.hub.takeNext s.peer with
    | some (m, hub) => { e with hub }.wake client (.outgoing m)
    | none => if (e.hub.peer? s.peer).isNone then e.wake client .lost else e

/-- Hands a client's session all that the hub has for it. -/
def collect (e : Endpoint) (client : String) : Endpoint :=
  let held := ((Entries.get? client e.connections).bind (·.session)).map fun s => e.hub.mail s.peer
  (List.range (held.getD []).length.succ).foldl (fun e _ => e.forward client) e

def collectAll (e : Endpoint) : Endpoint :=
  (Entries.keys e.connections).foldl collect e

/-- Something reaches a client's session, and what it causes reaches the others. -/
def signal (e : Endpoint) (client : String) (x : Signal) : Endpoint :=
  (e.wake client x).collectAll

/-! ### Clients -/

/-- The session of an admitted client: one without a valid ticket is told so and closed, one without a
document or a name of its own is only closed. -/
def open? (e : Endpoint) (q : CollabQuery) : Connection × Endpoint :=
  match e.application.resolveTicket q.ticket with
  | .error x => ({ session := none, received := [.ofFailure x] }, e)
  | .ok user =>
    match e.hub.connect q.doc user with
    | .error _ => ({ session := none }, e)
    | .ok (peer, hub) => ({ session := some (.start peer e.now) }, { e with hub })

/-- Answers a request for a connection. The last connection of the client ends once the new one is
there. -/
def connect (e : Endpoint) (client target : String) : Admission × Endpoint :=
  let a := Admission.ofTarget target
  match a with
  | .upgraded q =>
    let (c, e) := e.open? q
    (a, ((e.wake client .lost).put client c).collectAll)
  | _ => (a, e)

/-- A frame of a client; one on a closed connection is lost. -/
def send (e : Endpoint) (client : String) (f : SocketFrame) : Endpoint :=
  e.signal client (.incoming f)

/-- The client closes its end without a word. -/
def hangUp (e : Endpoint) (client : String) : Endpoint :=
  e.signal client .lost

/-! ### Time -/

/-- The timer that is due first, of several the one of the first client. -/
def nextTimer (e : Endpoint) : Option (Nat × String × Signal) :=
  e.connections.foldl (fun first (client, c) =>
    match c.session with
    | none => first
    | some s =>
      let (time, x) := s.nextTimer
      if first.all fun f => time < f.1 then some (time, client, x) else first) none

/-- Lets timers run out up to a time, but no more than `count` of them. -/
def runTimers : Nat → Nat → Endpoint → Endpoint
  | 0, _, e => e
  | count + 1, time, e =>
    match e.nextTimer with
    | none => e
    | some (due, client, x) =>
      if due ≤ time then runTimers count time ({ e with now := max e.now due }.signal client x) else e

/-- Lets time pass. In a millisecond every session pings and looks for idleness at most once, for the next
ping and the next look are later. -/
def advance (e : Endpoint) (span : Nat) : Endpoint :=
  let time := e.now + span
  { runTimers (2 * (span + 1) * e.connections.length) time e with now := time }

/-- Frames that a client has not read yet; they are read now. -/
def receive (e : Endpoint) (client : String) : List SocketFrame × Endpoint :=
  match Entries.get? client e.connections with
  | none => ([], e)
  | some c => (c.received, e.put client { c with received := [] })

def isClosed (e : Endpoint) (client : String) : Bool :=
  (Entries.get? client e.connections).all (·.session.isNone)

end Endpoint

end SecureLayout.Relay
