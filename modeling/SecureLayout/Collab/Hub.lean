import SecureLayout.Collab.Awareness
import SecureLayout.Collab.Document
import SecureLayout.Numeric.Power
import SecureLayout.Policy.Engine

/-!
The relay's side of collaboration: one replica of every document, the peers on it and their presence. A
peer is sent messages through a queue of its own; one whose queue is full is disconnected, which its
document's other peers may be told of, and so on. Main statement: whatever a
disconnection sets off, nobody comes back.
-/

namespace SecureLayout.Collab

open Json (Value)
open Wire (Clock FieldUpdate SyncMessage)

/-- A connection to one document. -/
structure Peer where
  id : Nat
  doc : String
  client : String
  /-- The only replica it writes as, known from its first write. -/
  replica : Option String := none
  deriving Repr

/-- What was sent to a peer and not read yet. It outlives the peer. -/
structure Mailbox where
  owner : Nat
  queue : List SyncMessage := []
  /-- Whether anybody will still read it. -/
  isRead : Bool := true
  deriving Repr

/-- How many unread messages a peer may have. -/
def Mailbox.capacity : Nat := 1024

def Mailbox.isFull (b : Mailbox) : Bool :=
  Mailbox.capacity ≤ b.queue.length

/-- The relay's own replica id, under which no peer may write. -/
def relayReplica : String := "relay"

/-- How far a write may be ahead of the relay's clock. -/
def greatestLead : Nat := Numeric.twoTo 20

structure Room where
  document : Document := { replica := relayReplica }
  /-- Ids of the peers on the document, in the order in which they came. -/
  members : List Nat := []
  deriving Repr

/-- Why a message of a peer is not taken. -/
inductive Refusal where
  | otherDocument
  | unexpectedKind
  | reservedReplica
  | clockAhead
  | otherReplica
  | lockedField
  deriving DecidableEq, Repr

namespace Refusal

def code : Refusal → Code
  | lockedField => .policyViolation
  | _ => .badRequest

def reason : Refusal → String
  | otherDocument => "message targets another doc"
  | unexpectedKind => "unexpected message type"
  | reservedReplica => "replica id not allowed"
  | clockAhead => "clock too far ahead"
  | otherReplica => "replica does not match this connection"
  | lockedField => "field not writable"

def toMessage (r : Refusal) : SyncMessage :=
  .error r.code.text r.reason

end Refusal

structure Hub where
  policy : SecurityPolicy
  /-- A document is kept from its first connection on. -/
  rooms : Entries Room := []
  peers : List Peer := []
  mailboxes : List Mailbox := []
  awareness : Awareness := {}
  nextPeer : Nat := 1

namespace Hub

def peer? (h : Hub) (id : Nat) : Option Peer :=
  h.peers.find? (·.id == id)

def mailbox? (h : Hub) (id : Nat) : Option Mailbox :=
  h.mailboxes.find? (·.owner == id)

def room (h : Hub) (doc : String) : Room :=
  (Entries.get? doc h.rooms).getD {}

def putRoom (h : Hub) (doc : String) (r : Room) : Hub :=
  { h with rooms := Entries.put doc r h.rooms }

def peerCount (h : Hub) (doc : String) : Nat :=
  (h.room doc).members.length

/-- All of a document, if it was ever opened. -/
def snapshot? (h : Hub) (doc : String) : Option (List FieldUpdate) :=
  (Entries.get? doc h.rooms).map (·.document.snapshot)

/-! ### Connections -/

/-- A new peer on a document, which is opened if need be. -/
def connect (h : Hub) (doc client : String) : Result (Nat × Hub) :=
  if Text.isBlankText doc then .error (.badRequest "doc id must not be blank")
  else if Text.isBlankText client then .error (.badRequest "client id must not be blank")
  else
    let id := h.nextPeer
    let r := h.room doc
    let h := h.putRoom doc { r with members := r.members ++ [id] }
    .ok (id,
      { h with
        peers := h.peers ++ [{ id, doc, client }]
        mailboxes := h.mailboxes ++ [{ owner := id }]
        nextPeer := id + 1 })

/-- Takes a peer off the relay and off its document. -/
def forget (h : Hub) (p : Peer) : Hub :=
  let r := h.room p.doc
  let h := h.putRoom p.doc { r with members := r.members.filter (· != p.id) }
  { h with peers := h.peers.filter (·.id != p.id) }

def updateMailbox (h : Hub) (id : Nat) (f : Mailbox → Mailbox) : Hub :=
  { h with mailboxes := h.mailboxes.map fun b => if b.owner == id then f b else b }

/-- Puts a message into a peer's queue and says whether there was no room for it. What is for nobody, or
for a peer that nobody reads for, is lost. -/
def enqueue (h : Hub) (id : Nat) (m : SyncMessage) : Bool × Hub :=
  match h.peer? id, h.mailbox? id with
  | some _, some b =>
    if !b.isRead then (false, h)
    else if b.isFull then (true, h)
    else (false, h.updateMailbox id fun b => { b with queue := b.queue ++ [m] })
  | _, _ => (false, h)

/-- Sends to one peer; one without room is dropped. -/
def sendOr (drop : Hub → Nat → Hub) (m : SyncMessage) (h : Hub) (id : Nat) : Hub :=
  match h.enqueue id m with
  | (true, h) => drop h id
  | (false, h) => h

/-- Sends to all peers that are on a document now, but to one of them not. -/
def broadcastOr (drop : Hub → Nat → Hub) (doc : String) (sender : Nat) (m : SyncMessage) (h : Hub) :
    Hub :=
  ((h.room doc).members.filter (· != sender)).foldl (sendOr drop m) h

/-- Ends a connection and, where its client was present, tells the others that it left. Each peer that has
to be dropped for that is one fewer, so `depth` never need exceed their number. -/
def disconnectWithin : Nat → Hub → Nat → Hub
  | 0, h, _ => h
  | depth + 1, h, id =>
    match h.peer? id with
    | none => h
    | some p =>
      let h := h.forget p
      match h.awareness.leave p.doc p.client with
      | (false, _) => h
      | (true, awareness) =>
        broadcastOr (disconnectWithin depth) p.doc id (.awareness p.doc p.client none)
          { h with awareness }

def disconnect (h : Hub) (id : Nat) : Hub :=
  disconnectWithin h.peers.length h id

def send (h : Hub) (id : Nat) (m : SyncMessage) : Hub :=
  sendOr disconnect m h id

def broadcast (h : Hub) (doc : String) (sender : Nat) (m : SyncMessage) : Hub :=
  broadcastOr disconnect doc sender m h

/-! ### Messages of peers -/

def refuse (h : Hub) (id : Nat) (r : Refusal) : Hub :=
  h.send id r.toMessage

/-- Sends a peer all of its document and who else is present. -/
def welcome (h : Hub) (p : Peer) : Hub :=
  let h := h.send p.id (.syncState p.doc (h.room p.doc).document.snapshot)
  ((h.awareness.states p.doc).filter (·.1 != p.client)).foldl
    (fun h s => h.send p.id (.awareness p.doc s.1 (some s.2))) h

/-- Why a peer may not write at a clock, if it may not. -/
def clockRefusal? (h : Hub) (p : Peer) (c : Clock) : Option Refusal :=
  if c.replica.isEmpty || c.replica == relayReplica then some .reservedReplica
  else if min ((h.room p.doc).document.clock + greatestLead) Clock.greatestCounter < c.counter then
    some .clockAhead
  else if p.replica.any (· != c.replica) then some .otherReplica
  else none

/-- From now on a peer writes as this replica. -/
def bind (h : Hub) (id : Nat) (replica : String) : Hub :=
  { h with peers := h.peers.map fun p => if p.id == id then { p with replica := some replica } else p }

/-- Tells a peer why its write is not taken. It is acknowledged all the same, or else it would be sent
again. -/
def refuseUpdate (h : Hub) (p : Peer) (seq : Nat) (r : Refusal) : Hub :=
  (h.refuse p.id r).send p.id (.ack p.doc seq)

/-- Merges a write and passes it on to the others if it is news. -/
def acceptUpdate (h : Hub) (p : Peer) (seq : Nat) (u : FieldUpdate) : Hub :=
  let r := h.room p.doc
  let (isNews, document) := r.document.merge u
  let h := (h.putRoom p.doc { r with document }).send p.id (.ack p.doc seq)
  if isNews then h.broadcast p.doc p.id (.update p.doc 0 u) else h

def receiveUpdate (h : Hub) (p : Peer) (seq : Nat) (u : FieldUpdate) : Hub :=
  match h.clockRefusal? p u.clock with
  | some r => h.refuseUpdate p seq r
  | none =>
    let h := h.bind p.id u.clock.replica
    if h.policy.isOutputField u.field then h.acceptUpdate p seq u else h.refuseUpdate p seq .lockedField

/-- Presence of a peer's own client, whichever client the message names. -/
def receiveAwareness (h : Hub) (p : Peer) (state : Option Value) : Hub :=
  let h := { h with awareness := h.awareness.apply p.doc p.client state }
  h.broadcast p.doc p.id (.awareness p.doc p.client state)

/-- A message of a peer; those of peers that are gone are lost. -/
def handle (h : Hub) (id : Nat) (m : SyncMessage) : Hub :=
  match h.peer? id with
  | none => h
  | some p =>
    if m.doc?.any (· != p.doc) then h.refuse id .otherDocument
    else match m with
      | .hello _ _ => h.welcome p
      | .update _ seq u => h.receiveUpdate p seq u
      | .awareness _ _ state => h.receiveAwareness p state
      | .syncState _ _ | .ack _ _ | .error _ _ => h.refuse id .unexpectedKind

/-! ### Reading queues -/

/-- Unread messages of a peer, the next one first. -/
def mail (h : Hub) (id : Nat) : List SyncMessage :=
  ((h.mailbox? id).map (·.queue)).getD []

/-- Takes the next unread message of a peer. -/
def takeNext (h : Hub) (id : Nat) : Option (SyncMessage × Hub) :=
  match h.mail id with
  | [] => none
  | m :: r => some (m, h.updateMailbox id fun b => { b with queue := r })

/-- Takes all unread messages of a peer. -/
def takeAll (h : Hub) (id : Nat) : List SyncMessage × Hub :=
  match h.mailbox? id with
  | some b => (b.queue, h.updateMailbox id fun b => { b with queue := [] })
  | none => ([], h)

/-- Nobody reads for a peer any more. The relay learns of it from nothing but the peer's silence. -/
def abandon (h : Hub) (id : Nat) : Hub :=
  h.updateMailbox id fun b => { b with queue := [], isRead := false }

/-- No more messages will come for a peer. -/
def isClosed (h : Hub) (id : Nat) : Bool :=
  (h.peer? id).isNone || (h.mailbox? id).all (!·.isRead)

def hasMail (h : Hub) (id : Nat) : Bool :=
  (h.mailbox? id).any (!·.queue.isEmpty)

/-- A peer is gone and everything that was sent to it is read. -/
def isDrained (h : Hub) (id : Nat) : Bool :=
  (h.peer? id).isNone && !h.hasMail id

/-! ### Laws -/

theorem room_putRoom (h : Hub) (doc other : String) (r : Room) :
    (h.putRoom doc r).room other = if other = doc then r else h.room other := by
  unfold putRoom room
  by_cases e : other = doc <;> simp [Entries.get?_put, e]

theorem peer?_forget_self (h : Hub) (p : Peer) : (h.forget p).peer? p.id = none := by
  simp [forget, peer?, List.find?_eq_none]

theorem peers_enqueue (h : Hub) (id : Nat) (m : SyncMessage) :
    (h.enqueue id m).2.peers = h.peers := by
  unfold enqueue
  split
  · split
    · rfl
    · split <;> rfl
  · rfl

/-- Nobody comes back while peers are dropped. -/
theorem peers_disconnectWithin (depth : Nat) (h : Hub) (id : Nat) :
    (disconnectWithin depth h id).peers ⊆ h.peers := by
  induction depth generalizing h id with
  | zero => exact fun _ hp => hp
  | succ depth ih =>
    have hsend (m : SyncMessage) (h : Hub) (id : Nat) :
        (sendOr (disconnectWithin depth) m h id).peers ⊆ h.peers := by
      unfold sendOr
      have hpeers := peers_enqueue h id m
      split
      · next e => rw [e] at hpeers; exact fun _ hp => hpeers ▸ ih _ id hp
      · next e => rw [e] at hpeers; exact fun _ hp => hpeers ▸ hp
    have hfold (m : SyncMessage) (ids : List Nat) :
        ∀ h : Hub, (ids.foldl (sendOr (disconnectWithin depth) m) h).peers ⊆ h.peers := by
      induction ids with
      | nil => exact fun _ _ hp => hp
      | cons a r ihr => exact fun h _ hp => hsend m h a (ihr _ hp)
    unfold disconnectWithin
    split
    · exact fun _ hp => hp
    · next p _ =>
      have hforget : (h.forget p).peers ⊆ h.peers := fun _ hp => (List.mem_filter.1 hp).1
      dsimp only
      split
      · exact hforget
      · next awareness _ =>
        exact fun _ hp => hforget (hfold _ _ { h.forget p with awareness } hp)

end Hub

end SecureLayout.Collab
