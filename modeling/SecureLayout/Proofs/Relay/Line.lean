import SecureLayout.Proofs.Collab.Membership
import SecureLayout.Relay.Endpoint

/-!
One connection beside everything else that goes on at the relay. What comes first is settled by nobody: the
hub's messages, the client's frames and the clock may come in any order, and others may use the relay in
between. Main statement: whatever happens, the peer of a session that has ended is gone.
-/

namespace SecureLayout

namespace Wire.SocketFrame

def isText : SocketFrame → Bool
  | text _ => true
  | _ => false

/-- The message that a frame brings, if it can be read. -/
def message? (f : SocketFrame) : Option SyncMessage :=
  match f.decode with
  | .ok (.sync m) => some m
  | _ => none

/-- The answer to a frame that cannot be read. -/
def complaint? (f : SocketFrame) : Option SocketFrame :=
  match f.decode with
  | .error e => some (.ofFailure e)
  | .ok _ => none

end Wire.SocketFrame

namespace Relay

open Collab (Event History Hub)
open Config (ServerSettings)
open Wire (SocketFrame SyncMessage)

/-- What a frame for the client is due to. -/
inductive Origin where
  /-- A message in the peer's queue. -/
  | queue
  | client
  | clock
  deriving DecidableEq

def Signal.origin : Signal → Origin
  | .outgoing _ => .queue
  | .refused _ => .queue
  | .incoming _ => .client
  | .lost => .client
  | .pingDue => .clock
  | .quiet => .clock

/-- What a reaction does at the relay. -/
def Reaction.events (r : Reaction) (peer : Nat) : List Event :=
  (r.forHub.map (.handle peer ·)).toList ++ if r.stays then [] else [.disconnect peer]

/-- What happens while a session runs. -/
inductive Happening where
  /-- Something else is done at the relay. -/
  | elsewhere (e : Event)
  /-- The session looks into its peer's queue; the socket takes what is sent for it, or does not. -/
  | queue (isTaken : Bool)
  | frame (f : SocketFrame)
  /-- The client's end is gone. -/
  | streamEnd
  | ping
  /-- After a while of quiet the session looks for idleness. -/
  | look
  | pass (span : Nat)

/-- A connection, with everything that went on at the relay since it began. -/
structure Line where
  server : ServerSettings
  /-- The relay when the session began. -/
  start : History
  /-- What was done at the relay since, by the session too. -/
  events : List Event := []
  now : Nat
  /-- There is none once it has ended. -/
  session : Option Session
  /-- Frames of the client. -/
  received : List SocketFrame := []
  /-- Frames for the client. -/
  sent : List (Origin × SocketFrame) := []
  /-- Messages out of the queue that the socket did not take. -/
  unsent : List SyncMessage := []

/-- Text frames that are due to one thing. -/
def texts (o : Origin) (sent : List (Origin × SocketFrame)) : List SocketFrame :=
  (sent.filter fun x => decide (x.1 = o) && x.2.isText).map (·.2)

/-- What may happen to a client's connection at an endpoint, whose sockets take all that they are given. -/
def Endpoint.undergo? (e : Endpoint) (client : String) : Happening → Option Endpoint
  | .queue true => some (e.forward client)
  | .frame f => some (e.wake client (.incoming f))
  | .streamEnd => some (e.wake client .lost)
  | .ping => some (e.wake client .pingDue)
  | .look => some (e.wake client .quiet)
  | .pass span => some { e with now := e.now + span }
  | .queue false => none
  | .elsewhere _ => none

namespace Line

def history (l : Line) : History :=
  l.events.foldl History.next l.start

abbrev hub (l : Line) : Hub :=
  l.history.hub

/-- Messages that were handled for a peer. -/
def passed (l : Line) (peer : Nat) : List SyncMessage :=
  l.events.filterMap (Event.messageOf? peer)

/-- Messages that were taken from a peer's queue. -/
def taken (l : Line) (peer : Nat) : List SyncMessage :=
  l.history.heard peer

/-- The session stops waiting. -/
def meet (l : Line) (x : Signal) : Line :=
  match l.session with
  | none => l
  | some s =>
    let (r, s') := s.react l.server l.now x
    { l with
      events := l.events ++ r.events s.peer
      session := if r.stays then some s' else none
      sent := l.sent ++ r.frames.map (x.origin, ·) }

/-- The next message leaves a peer's queue. -/
def take (l : Line) (peer : Nat) : Line :=
  { l with events := l.events ++ [.read peer] }

/-- A message that left the queue goes out, or the session ends with it. -/
def deliver (l : Line) (m : SyncMessage) (isTaken : Bool) : Line :=
  if isTaken then l.meet (.outgoing m) else { l.meet (.refused m) with unsent := l.unsent ++ [m] }

/-- The session passes the next message on, or learns that there will be none. -/
def readQueue (l : Line) (isTaken : Bool) : Line :=
  match l.session with
  | none => l
  | some s =>
    match l.hub.takeNext s.peer with
    | some (m, _) => (l.take s.peer).deliver m isTaken
    | none => if (l.hub.peer? s.peer).isNone then l.meet .lost else l

def receive (l : Line) (f : SocketFrame) : Line :=
  { l with received := l.received ++ [f] }

/-- A frame comes in; on a closed connection it is lost. -/
def hear (l : Line) (f : SocketFrame) : Line :=
  match l.session with
  | none => l
  | some _ => (l.receive f).meet (.incoming f)

def step (l : Line) : Happening → Line
  | .elsewhere e => { l with events := l.events ++ [e] }
  | .queue isTaken => l.readQueue isTaken
  | .frame f => l.hear f
  | .streamEnd => l.meet .lost
  | .ping => l.meet .pingDue
  | .look => l.meet .quiet
  | .pass span => { l with now := l.now + span }

def run (l : Line) (happenings : List Happening) : Line :=
  happenings.foldl step l

end Line

/-! ### Reactions -/

theorem hub_reaction (r : Reaction) (peer : Nat) (t : History) :
    ((r.events peer).foldl History.next t).hub = r.atHub peer t.hub := by
  unfold Reaction.events Reaction.atHub
  cases r.forHub <;> cases r.stays <;> rfl

theorem forHub_ofFrame (f : SocketFrame) : (Session.ofFrame f).forHub = f.message? := by
  unfold Session.ofFrame SocketFrame.message?
  rcases f.decode with e | ⟨m | octets | octets | -⟩ <;> rfl

theorem texts_ofFrame (f : SocketFrame) :
    (Session.ofFrame f).frames.filter SocketFrame.isText = f.complaint?.toList := by
  unfold Session.ofFrame SocketFrame.complaint?
  rcases f.decode with e | ⟨m | octets | octets | -⟩ <;> rfl

variable {l : Line} {s : Session} {peer : Nat} {x : Signal} {o : Origin}

@[simp] theorem texts_append (o : Origin) (sent more : List (Origin × SocketFrame)) :
    texts o (sent ++ more) = texts o sent ++ texts o more := by
  simp [texts]

@[simp] theorem texts_map (o o' : Origin) (frames : List SocketFrame) :
    texts o (frames.map (o', ·)) = if o' = o then frames.filter SocketFrame.isText else [] := by
  by_cases ho : o' = o <;> simp [texts, List.filter_map, Function.comp_def, ho]

namespace Line

theorem meet_eq (hs : l.session = some s) (x : Signal) : l.meet x =
    { l with
      events := l.events ++ (s.react l.server l.now x).1.events s.peer
      session := if (s.react l.server l.now x).1.stays then some (s.react l.server l.now x).2 else none
      sent := l.sent ++ (s.react l.server l.now x).1.frames.map (x.origin, ·) } := by
  unfold meet
  rw [hs]

theorem history_meet (hs : l.session = some s) (x : Signal) : (l.meet x).history =
    ((s.react l.server l.now x).1.events s.peer).foldl History.next l.history := by
  rw [meet_eq hs, history, history, List.foldl_append]

theorem hear_eq (hs : l.session = some s) (f : SocketFrame) : l.hear f = (l.receive f).meet (.incoming f) := by
  unfold hear
  rw [hs]

theorem meet_of_none (hs : l.session = none) (x : Signal) : l.meet x = l := by
  unfold meet
  rw [hs]

/-! ### The peer at the relay -/

/-- The relay is in order, and the peer is there as long as it may be. -/
structure Seated (peer : Nat) (l : Line) : Prop where
  consistent : l.hub.Consistent
  known : peer < l.hub.nextPeer
  owner : ∀ s ∈ l.session, s.peer = peer
  gone : l.session = none → l.hub.peer? peer = none

theorem peer_react (s : Session) (server : ServerSettings) (now : Nat) (x : Signal) :
    (s.react server now x).2.peer = s.peer := by
  cases x with
  | quiet => unfold Session.react; dsimp only; split <;> rfl
  | _ => rfl

/-- Whatever is done at the relay, also by others. -/
theorem Seated.after (h : l.Seated peer) (es : List Event) : Seated peer { l with events := l.events ++ es } := by
  induction es generalizing l with
  | nil => simpa using h
  | cons e es ih =>
    obtain ⟨hs, hid, hgone⟩ := History.upkeep_next h.consistent h.known e
    have hhistory : Line.history { l with events := l.events ++ [e] } = l.history.next e := by
      simp [history]
    have hone : Seated peer { l with events := l.events ++ [e] } := by
      refine ⟨?_, ?_, h.owner, fun hn => ?_⟩
      · rw [hub, hhistory]
        exact hs
      · rw [hub, hhistory]
        exact hid
      · rw [hub, hhistory]
        exact hgone (h.gone hn)
    have hrest := ih hone
    rwa [List.append_assoc] at hrest

/-- A session that ends takes its peer along. -/
theorem Seated.meet (h : l.Seated peer) (x : Signal) : (l.meet x).Seated peer := by
  cases hs : l.session with
  | none =>
    rw [meet_of_none hs]
    exact h
  | some s =>
    have howner := h.owner s hs
    have hafter := h.after ((s.react l.server l.now x).1.events s.peer)
    rw [meet_eq hs]
    refine ⟨hafter.consistent, hafter.known, fun s' hs' => ?_, fun hended => ?_⟩
    · dsimp only at hs'
      split at hs'
      · cases hs'
        rw [peer_react, howner]
      · cases hs'
    · have hstays : (s.react l.server l.now x).1.stays = false := by
        cases hr : (s.react l.server l.now x).1.stays with
        | false => rfl
        | true => simp [hr] at hended
      rw [hub, history, List.foldl_append, hub_reaction, howner, Reaction.atHub, hstays]
      exact Hub.peer?_disconnect _ peer

theorem Seated.step (h : l.Seated peer) (x : Happening) : (l.step x).Seated peer := by
  cases x with
  | elsewhere e => exact h.after [e]
  | queue isTaken =>
    change (l.readQueue isTaken).Seated peer
    unfold readQueue
    split
    · exact h
    · next s hs =>
      split
      · next m hub ht =>
        have htook : (l.take s.peer).Seated peer := h.after [.read s.peer]
        unfold deliver
        split
        · exact htook.meet (.outgoing m)
        · obtain ⟨hc, hk, ho, hg⟩ := htook.meet (.refused m)
          exact ⟨hc, hk, ho, hg⟩
      · split
        · exact h.meet .lost
        · exact h
  | frame f =>
    change (l.hear f).Seated peer
    unfold hear
    split
    · exact h
    · have hheard : (l.receive f).Seated peer := ⟨h.consistent, h.known, h.owner, h.gone⟩
      exact hheard.meet _
  | streamEnd => exact h.meet .lost
  | ping => exact h.meet .pingDue
  | look => exact h.meet .quiet
  | pass span => exact ⟨h.consistent, h.known, h.owner, h.gone⟩

/-! ### Connections at an endpoint -/

/-- A line is what has become of a client's connection, whose first frames are older than the line. -/
structure Shows (older : List SocketFrame) (client : String) (e : Endpoint) (l : Line) : Prop where
  connection : Entries.get? client e.connections =
    some { session := l.session, received := older ++ l.sent.map (·.2) }
  hub : l.hub = e.hub
  server : l.server = e.application.config.server
  now : l.now = e.now

variable {older : List SocketFrame} {client : String} {e : Endpoint}

/-- Waking the session of a connection is a signal on its line. -/
theorem Shows.wake (h : l.Shows older client e) (x : Signal) : (l.meet x).Shows older client (e.wake client x) := by
  cases hs : l.session with
  | none =>
    have hwake : e.wake client x = e := by
      unfold Endpoint.wake
      rw [h.connection, hs]
    rw [meet_of_none hs, hwake]
    exact h
  | some s =>
    have hhub : (l.meet x).hub = (s.react l.server l.now x).1.atHub s.peer l.hub := by
      rw [Line.hub, history_meet hs]
      exact hub_reaction _ _ _
    rw [h.server, h.now, h.hub] at hhub
    have hwake : e.wake client x =
        ({ e with hub := (s.react e.application.config.server e.now x).1.atHub s.peer e.hub }.put client
          { session := if (s.react e.application.config.server e.now x).1.stays then
              some (s.react e.application.config.server e.now x).2 else none
            received :=
              older ++ l.sent.map Prod.snd ++ (s.react e.application.config.server e.now x).1.frames }) := by
      unfold Endpoint.wake
      rw [h.connection, hs]
      dsimp only
      rw [peer_react]
    rw [hwake]
    refine ⟨?_, hhub, ?_, ?_⟩
    · rw [Endpoint.put, Entries.get?_put, if_pos rfl, meet_eq hs, h.server, h.now]
      simp [Function.comp_def]
    · rw [meet_eq hs]
      exact h.server
    · rw [meet_eq hs]
      exact h.now

/-- What the hub has for a session reaches it one message after the other. -/
theorem Shows.forward (h : l.Shows older client e) :
    (l.step (.queue true)).Shows older client (e.forward client) := by
  change (l.readQueue true).Shows older client _
  unfold readQueue Endpoint.forward
  rw [h.connection, Option.bind_some, h.hub]
  cases hs : l.session with
  | none => exact h
  | some s =>
    dsimp only
    cases ht : e.hub.takeNext s.peer with
    | some x =>
      obtain ⟨m, hub⟩ := x
      have htook : (l.take s.peer).hub = hub := by
        have hnext : (l.take s.peer).history = l.history.next (.read s.peer) := by simp [take, history]
        rw [Line.hub, hnext, History.next, show l.history.hub = e.hub from h.hub, ht]
      have htake : (l.take s.peer).Shows older client { e with hub } := ⟨h.connection, htook, h.server, h.now⟩
      exact htake.wake (.outgoing m)
    | none =>
      dsimp only
      split
      · exact h.wake .lost
      · exact h

/-- What the endpoint does with a connection happens on its line. -/
theorem Shows.step (h : l.Shows older client e) {x : Happening} {e' : Endpoint}
    (hx : e.undergo? client x = some e') : (l.step x).Shows older client e' := by
  cases x with
  | elsewhere event => cases hx
  | queue isTaken =>
    cases isTaken with
    | true =>
      cases hx
      exact h.forward
    | false => cases hx
  | frame f =>
    cases hx
    change (l.hear f).Shows older client _
    cases hs : l.session with
    | none =>
      have hstill := h.wake (.incoming f)
      rw [meet_of_none hs] at hstill
      rw [hear, hs]
      exact hstill
    | some s =>
      have hreceived : (l.receive f).Shows older client e := ⟨h.connection, h.hub, h.server, h.now⟩
      rw [hear_eq hs]
      exact hreceived.wake _
  | streamEnd =>
    cases hx
    exact h.wake .lost
  | ping =>
    cases hx
    exact h.wake .pingDue
  | look =>
    cases hx
    exact h.wake .quiet
  | pass span =>
    cases hx
    exact ⟨h.connection, h.hub, h.server, congrArg (· + span) h.now⟩

end Line

end Relay

end SecureLayout
