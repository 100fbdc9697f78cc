import SecureLayout.Config.Server
import SecureLayout.Wire.Socket

/-!
One connection to the relay in time. A session waits for whatever comes first: a message of the hub, a
frame of the client, the time to ping, or a while of quiet, after which it looks whether the client has
been idle for too long. Main statements: only the client's frames count as activity, and anything at all
puts the next look off.
-/

namespace SecureLayout.Relay

open Config (ServerSettings)
open Wire (SocketFrame SyncMessage)

/-- Milliseconds of quiet after which a session looks for idleness. -/
def quietSpan : Nat := 250

/-- What a session waits for. -/
inductive Signal where
  | outgoing (m : SyncMessage)
  /-- A message of the hub that the socket does not take. -/
  | refused (m : SyncMessage)
  | incoming (f : SocketFrame)
  /-- The client's end is gone, or the hub has dropped the peer. -/
  | lost
  | pingDue
  | quiet

structure Session where
  /-- The hub's peer. -/
  peer : Nat
  /-- When the client's last frame came, or the session began. -/
  lastActivity : Nat
  /-- When the session last began to wait. -/
  waitingSince : Nat
  nextPing : Nat
  deriving DecidableEq, Repr

/-- What a session does when it stops waiting. -/
structure Reaction where
  frames : List SocketFrame := []
  /-- A message of the client for the hub. -/
  forHub : Option SyncMessage := none
  /-- The session goes on. -/
  stays : Bool := true

/-- The frame that a session for an idle client ends with. -/
def timeoutFrame : SocketFrame := .ofMessage (.error "TIMEOUT" "idle timeout")

namespace Session

/-- The first ping is due at once. -/
def start (peer now : Nat) : Session :=
  { peer, lastActivity := now, waitingSince := now, nextPing := now }

/-- When the session looks for idleness if nothing comes before. -/
def nextLook (s : Session) : Nat :=
  s.waitingSince + quietSpan

/-- What comes first if neither the client nor the hub sends anything, and when. -/
def nextTimer (s : Session) : Nat × Signal :=
  if s.nextPing ≤ s.nextLook then (s.nextPing, .pingDue) else (s.nextLook, .quiet)

def isIdle (server : ServerSettings) (now : Nat) (s : Session) : Bool :=
  server.idleTimeout ≤ now - s.lastActivity

/-- What a frame of the client leads to; a frame that cannot be read is answered and the session goes on. -/
def ofFrame (f : SocketFrame) : Reaction :=
  match f.decode with
  | .ok (.sync m) => { forHub := some m }
  | .ok (.ping octets) => { frames := [.pong octets] }
  | .ok (.pong _) => {}
  | .ok .close => { stays := false }
  | .error e => { frames := [.ofFailure e] }

def react (server : ServerSettings) (now : Nat) (s : Session) (x : Signal) : Reaction × Session :=
  let s := { s with waitingSince := now }
  match x with
  | .outgoing m => ({ frames := [.ofMessage m] }, s)
  | .refused _ => ({ stays := false }, s)
  | .incoming f => (ofFrame f, { s with lastActivity := now })
  | .lost => ({ stays := false }, s)
  | .pingDue => ({ frames := [.ping []] }, { s with nextPing := now + server.pingInterval })
  | .quiet =>
    if s.isIdle server now then ({ frames := [timeoutFrame], stays := false }, s) else ({}, s)

theorem lastActivity_react (server : ServerSettings) (now : Nat) (s : Session) (x : Signal)
    (h : ∀ f, x ≠ .incoming f) : (s.react server now x).2.lastActivity = s.lastActivity := by
  cases x with
  | incoming f => exact absurd rfl (h f)
  | quiet => unfold react; dsimp only; split <;> rfl
  | _ => rfl

theorem nextLook_react (server : ServerSettings) (now : Nat) (s : Session) (x : Signal) :
    (s.react server now x).2.nextLook = now + quietSpan := by
  cases x with
  | quiet => unfold react; dsimp only; split <;> rfl
  | _ => rfl

end Session

end SecureLayout.Relay
