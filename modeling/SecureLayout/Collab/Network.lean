import SecureLayout.Collab.Hub
import SecureLayout.Collab.Provider

/-!
A relay and replicas with links between them. Messages keep their order on each way of a link; otherwise
any of them may be next, and settling is one such order in which none stays behind. Main statement: a
replica that acts changes nothing but itself.
-/

namespace SecureLayout.Collab

open Json (Value)
open Wire (FieldUpdate SyncMessage)

/-- A replica and what is on its way to it. -/
structure Station where
  provider : Provider
  /-- The relay's peer at the other end of the link. -/
  peer : Option Nat := none
  /-- Messages that left the peer's queue, the next one first. -/
  incoming : List SyncMessage := []

structure Network where
  hub : Hub
  /-- Replicas by names of their own; two of them may be replicas of one client. -/
  stations : Entries Station := []
  /-- Peers whose replica gave the link up, with what it had sent over it. -/
  leaving : List (Nat × List SyncMessage) := []
  /-- Peers whose messages nobody takes, although nobody gave their link up. -/
  deaf : List Nat := []

namespace Network

def put (n : Network) (client : String) (s : Station) : Network :=
  { n with stations := Entries.put client s n.stations }

/-! ### Single movements -/

/-- What a replica sent first reaches the relay. -/
def sendNext (n : Network) (client : String) : Network :=
  match Entries.get? client n.stations with
  | none => n
  | some s =>
    match s.provider.takeNext, s.peer with
    | some (m, provider), some peer =>
      { n.put client { s with provider } with hub := n.hub.handle peer m }
    | _, _ => n

/-- The next message that the relay holds for a replica sets out. -/
def collectNext (n : Network) (client : String) : Network :=
  match Entries.get? client n.stations with
  | none => n
  | some s =>
    match s.peer with
    | none => n
    | some peer =>
      match n.hub.takeNext peer with
      | none => n
      | some (m, hub) => { n with hub }.put client { s with incoming := s.incoming ++ [m] }

/-- What set out first reaches the replica. -/
def receiveNext (n : Network) (client : String) : Network :=
  match Entries.get? client n.stations with
  | none => n
  | some s =>
    match s.incoming with
    | [] => n
    | m :: r => n.put client { s with provider := s.provider.receive m, incoming := r }

/-- A replica whose peer is gone loses its link once everything has reached it. -/
def notice (n : Network) (client : String) : Network :=
  match Entries.get? client n.stations with
  | none => n
  | some s =>
    if s.incoming.isEmpty && s.peer.any n.hub.isDrained then
      n.put client { s with provider := s.provider.linkDown, peer := none }
    else n

/-- What was sent first over a link that was given up reaches the relay. -/
def leaveNext (n : Network) (peer : Nat) : Network :=
  match n.leaving.lookup peer with
  | some (m :: r) =>
    { n with
      hub := n.hub.handle peer m
      leaving := n.leaving.map fun l => if l.1 == peer then (peer, r) else l }
  | _ => n

/-- The peer of a link that was given up leaves; what was sent over the link and has not arrived is lost. -/
def leave (n : Network) (peer : Nat) : Network :=
  { n with hub := n.hub.disconnect peer, leaving := n.leaving.filter (·.1 != peer) }

/-- The relay's end of a replica's link breaks, which the replica does not notice yet. -/
def cut (n : Network) (client : String) : Network :=
  match (Entries.get? client n.stations).bind (·.peer) with
  | none => n
  | some peer => { n with hub := n.hub.disconnect peer }

/-! ### Settling -/

/-- Everything that the relay holds for a replica sets out. -/
def collect (n : Network) (client : String) : Network :=
  let held := (((Entries.get? client n.stations).bind (·.peer)).map n.hub.mail).getD []
  held.foldl (fun n _ => n.collectNext client) n

/-- Everything for a replica reaches it. -/
def deliver (n : Network) (client : String) : Network :=
  let n := n.collect client
  let waiting := ((Entries.get? client n.stations).map (·.incoming)).getD []
  (waiting.foldl (fun n _ => n.receiveNext client) n).notice client

def deliverAll (n : Network) : Network :=
  (Entries.keys n.stations).foldl deliver n

/-- Deaf peers leave as soon as there is something for them, which others may be told. -/
def dropDeaf : Nat → Network → Network
  | 0, n => n
  | room + 1, n =>
    match n.deaf.find? (n.hub.hasMail ·) with
    | none => n
    | some peer =>
      dropDeaf room
        { n with hub := n.hub.disconnect peer, deaf := n.deaf.filter (· != peer) }.deliverAll

/-- Everything that the relay sent reaches its replica. -/
def route (n : Network) : Network :=
  dropDeaf n.deaf.length n.deliverAll

/-- Everything that a replica sent reaches the relay, and every answer those whom it is for. -/
def flush (n : Network) (client : String) : Network :=
  let waiting := (((Entries.get? client n.stations).bind (·.provider.link)).map (·.outgoing)).getD []
  waiting.foldl (fun n _ => (n.sendNext client).route) n

/-- Everything that was sent over a link that was given up reaches the relay, and then its peer leaves. -/
def finish (n : Network) (peer : Nat) (sent : List SyncMessage) : Network :=
  (sent.foldl (fun n _ => n.leaveNext peer) n).leave peer

/-- Until nothing is on its way. -/
def settle (n : Network) : Network :=
  let n := (Entries.keys n.stations).foldl flush n
  n.leaving.foldl (fun n l => (n.finish l.1 l.2).route) n

/-! ### What replicas do -/

/-- The replica at a station gives its link up, if it has one. -/
def release (n : Network) (s : Station) : Network :=
  match s.peer with
  | none => n
  | some peer =>
    { n with leaving := n.leaving ++ [(peer, (s.provider.link.map (·.outgoing)).getD [])] }

def detach (n : Network) (client : String) : Network :=
  match Entries.get? client n.stations with
  | none => n
  | some s => (n.release s).put client { provider := s.provider.detach }

/-- A replica ends; whether there was one. -/
def drop (n : Network) (client : String) : Bool × Network :=
  match Entries.get? client n.stations with
  | none => (false, n)
  | some s => (true, { n.release s with stations := Entries.remove client n.stations })

/-- A replica without a link, instead of the client's last one. -/
def create (n : Network) (client doc replica : String) : Network :=
  (n.drop client).2.put client { provider := { doc, client, document := { replica } } }

/-- A new link for a client's replica. -/
def attach (n : Network) (client : String) : Result Unit × Network :=
  match Entries.get? client n.stations with
  | none => (.ok (), n)
  | some s =>
    match n.hub.connect s.provider.doc s.provider.client with
    | .error e => (.error e, n)
    | .ok (peer, hub) =>
      let (r, provider) := s.provider.attach {}
      (r, ({ n with hub }.release s).put client { provider, peer := some peer })

/-- A new replica with a link. -/
def connect (n : Network) (client doc replica : String) : Result Unit × Network :=
  match n.hub.connect doc client with
  | .error e => (.error e, n)
  | .ok (peer, hub) =>
    let (r, provider) := Provider.attach { doc, client, document := { replica } } {}
    (r, ({ n with hub }.drop client).2.put client { provider, peer := some peer })

/-- A link at whose end nobody takes messages. -/
def connectDeaf (n : Network) (client doc : String) : Result Unit × Network :=
  match n.hub.connect doc client with
  | .error e => (.error e, n)
  | .ok (peer, hub) => (.ok (), { n with hub, deaf := n.deaf ++ [peer] })

/-- Lets a client's replica do something; `none` if there is none. -/
def act {α : Type} (n : Network) (client : String) (f : Provider → α × Provider) :
    Option α × Network :=
  match Entries.get? client n.stations with
  | none => (none, n)
  | some s =>
    let (a, provider) := f s.provider
    (some a, n.put client { s with provider })

theorem hub_act {α : Type} (n : Network) (client : String) (f : Provider → α × Provider) :
    (n.act client f).2.hub = n.hub := by
  unfold act
  split <;> rfl

theorem stations_act {α : Type} (n : Network) (client other : String) (f : Provider → α × Provider)
    (h : other ≠ client) :
    Entries.get? other (n.act client f).2.stations = Entries.get? other n.stations := by
  unfold act
  split
  · rfl
  · simp [put, Entries.get?_put, h]

end Network

end SecureLayout.Collab
