import SecureLayout.Collab.Document
import SecureLayout.Wire.Sync

/-!
The replica's side of collaboration: a document whose own writes are numbered and kept until the relay
acknowledges them, over links that come and go. Main statements: the status always tells how many writes
are unacknowledged, and a link lost leaves neither presence nor a claim to be synced.
-/

namespace SecureLayout.Collab

open Json (Value)
open Wire (FieldUpdate SyncMessage)

/-- The replica's end of a connection to the relay. -/
structure Link where
  /-- Messages on their way to the relay, the next one first. -/
  outgoing : List SyncMessage := []
  /-- Whether the relay still takes messages. -/
  isRead : Bool := true
  deriving Repr

namespace Link

def closed : Failure := .transport "sync link closed"

def send (l : Link) (m : SyncMessage) : Result Link :=
  if l.isRead then .ok { l with outgoing := l.outgoing ++ [m] } else .error closed

/-- Sends if the relay takes messages. -/
def trySend (l : Link) (m : SyncMessage) : Link :=
  (l.send m).toOption.getD l

end Link

/-- What a replica shows of its connection. -/
structure SyncStatus where
  connected : Bool := false
  /-- The relay's document has arrived over the present link. -/
  synced : Bool := false
  /-- How many writes the relay has not acknowledged. -/
  pendingChanges : Nat := 0
  deriving DecidableEq, Repr

structure Provider where
  doc : String
  client : String
  document : Document
  nextSeq : Nat := 1
  /-- Writes that are not acknowledged, by their numbers in increasing order. -/
  pending : List (Nat × FieldUpdate) := []
  link : Option Link := none
  /-- Presence of other clients, as far as it arrived over the present link. -/
  peers : Entries Value := []
  status : SyncStatus := {}
  /-- Whether own writes are still kept for the relay. -/
  isTracking : Bool := true

namespace Provider

def updateMessage (p : Provider) (seq : Nat) (u : FieldUpdate) : SyncMessage :=
  .update p.doc seq u

/-- The link is lost, for whichever reason. What is pending stays so. -/
def linkDown (p : Provider) : Provider :=
  { p with link := none, peers := [], status := { p.status with connected := false, synced := false } }

/-- Gives the link up. -/
def detach (p : Provider) : Provider :=
  p.linkDown

/-- Replaces the link: announces the replica and sends again what is pending. -/
def attach (p : Provider) (link : Link) : Result Unit × Provider :=
  let p := p.detach
  match link.send (.hello p.doc p.client) with
  | .error e => (.error e, p)
  | .ok link =>
    let link := p.pending.foldl (fun l e => l.trySend (p.updateMessage e.1 e.2)) link
    (.ok (),
      { p with link := some link, status := { p.status with connected := true, synced := false } })

/-- Keeps an own write until it is acknowledged, and sends it over a link if there is one. -/
def queue (p : Provider) (u : FieldUpdate) : Provider :=
  let pending := p.pending ++ [(p.nextSeq, u)]
  { p with
    nextSeq := p.nextSeq + 1
    pending
    link := p.link.map (·.trySend (p.updateMessage p.nextSeq u))
    status := { p.status with pendingChanges := pending.length } }

/-- A write through this replica. -/
def set (p : Provider) (field : String) (value : Value) : Result FieldUpdate × Provider :=
  match p.document.set field value with
  | .error e => (.error e, p)
  | .ok (u, document) =>
    let p := { p with document }
    (.ok u, if p.isTracking then p.queue u else p)

/-- A write of another replica; it is never sent on. -/
def merge (p : Provider) (u : FieldUpdate) : Bool × Provider :=
  let (b, document) := p.document.merge u
  (b, { p with document })

/-- Publishes presence of this client, or that it is no longer present. -/
def publish (p : Provider) (state : Option Value) : Result Unit × Provider :=
  match p.link with
  | none => (.error (.transport "not connected"), p)
  | some l =>
    match l.send (.awareness p.doc p.client state) with
    | .error e => (.error e, p)
    | .ok l => (.ok (), { p with link := some l })

def acknowledge (p : Provider) (seq : Nat) : Provider :=
  let pending := p.pending.filter (·.1 != seq)
  { p with pending, status := { p.status with pendingChanges := pending.length } }

/-- A message of the relay. The document it names is not looked at: a link is about one document. -/
def receive (p : Provider) : SyncMessage → Provider
  | .syncState _ updates =>
    { p with document := p.document.mergeAll updates, status := { p.status with synced := true } }
  | .update _ _ u => { p with document := (p.document.merge u).2 }
  | .ack _ seq => p.acknowledge seq
  | .awareness _ client (some s) => { p with peers := Entries.put client s p.peers }
  | .awareness _ client none => { p with peers := Entries.remove client p.peers }
  | .error _ _ | .hello _ _ => p

/-- Stops tracking for good. -/
def stop (p : Provider) : Provider :=
  { p with isTracking := false }.detach

/-- The message that leaves next. -/
def takeNext (p : Provider) : Option (SyncMessage × Provider) :=
  match p.link with
  | some l =>
    match l.outgoing with
    | m :: r => some (m, { p with link := some { l with outgoing := r } })
    | [] => none
  | none => none

/-- All messages that are on their way to the relay. -/
def takeOutgoing (p : Provider) : List SyncMessage × Provider :=
  match p.link with
  | some l => (l.outgoing, { p with link := some { l with outgoing := [] } })
  | none => ([], p)

/-- The status counts what is pending. -/
def IsCounted (p : Provider) : Prop :=
  p.status.pendingChanges = p.pending.length

theorem IsCounted.queue {p : Provider} (u : FieldUpdate) : (p.queue u).IsCounted := rfl

theorem IsCounted.linkDown {p : Provider} (h : p.IsCounted) : p.linkDown.IsCounted := h

theorem IsCounted.receive {p : Provider} (h : p.IsCounted) (m : SyncMessage) :
    (p.receive m).IsCounted := by
  cases m with
  | awareness doc client state => cases state <;> exact h
  | ack doc seq => rfl
  | _ => exact h

theorem IsCounted.set {p : Provider} (h : p.IsCounted) (field : String) (value : Value) :
    (p.set field value).2.IsCounted := by
  unfold Provider.set
  split
  · exact h
  · dsimp only
    split
    · rfl
    · exact h

theorem peers_linkDown (p : Provider) : p.linkDown.peers = [] := rfl

end Provider

end SecureLayout.Collab
