import Mathlib.Logic.Function.Basic
import SecureLayout.Proofs.Collab.Ledger
import SecureLayout.Proofs.Entries

/-!
One replica over links that come and go, each with messages on their way to it. Main statement: it is connected just
while it has a link, synced just once the relay's document was read over that very link, and shows the presence that
was last read over it; what is still on its way over a link that was given up, lost or replaced changes nothing.
-/

namespace SecureLayout.Collab

open Json (Value)
open Wire (SyncMessage)

/-- A replica with the links it was given. Only the reader of its present link takes messages from a link, one at a
time; it ends with the link. -/
structure Connection where
  provider : Provider
  /-- How many links it was given, also those whose other end takes no messages. -/
  given : Nat := 0
  /-- The link that is read, by its number. -/
  reading : Option Nat := none
  /-- What is on its way over each link, also over those that are read no longer or were not given yet. -/
  incoming : Nat → List SyncMessage := fun _ => []
  /-- Over these links nothing more will come. -/
  isClosed : Nat → Bool := fun _ => false
  /-- What was read so far, with the link it came over. -/
  heard : List (Nat × SyncMessage) := []
  isDropped : Bool := false

/-- What a replica does on its own or is asked to do, and touches neither its link nor the reader. -/
def Provider.Action.isOwn : Provider.Action → Bool
  | .write _ _ | .merge _ | .publish _ | .take | .deafen => true
  | .attach _ | .detach | .lose | .receive _ => false

namespace Connection

inductive Turn where
  /-- A new link, whose other end takes messages or does not. -/
  | attach (isRead : Bool)
  | detach
  /-- The replica ends. -/
  | drop
  /-- The other end of a link sends a message. -/
  | arrive (link : Nat) (m : SyncMessage)
  /-- The other end of a link sends nothing more. -/
  | close (link : Nat)
  /-- The reader goes on. Where nothing more comes it loses the link. -/
  | read
  | own (a : Provider.Action)

def readNext (c : Connection) (link : Nat) : Connection :=
  match c.incoming link with
  | m :: r =>
    { c with
      provider := c.provider.receive m
      incoming := Function.update c.incoming link r
      heard := c.heard ++ [(link, m)] }
  | [] => if c.isClosed link then { c with provider := c.provider.linkDown, reading := none } else c

def next (c : Connection) : Turn → Connection
  | .attach isRead =>
    if c.isDropped then c
    else
      let (r, provider) := c.provider.attach { isRead }
      { c with provider, given := c.given + 1, reading := r.toOption.map fun _ => c.given }
  | .detach => if c.isDropped then c else { c with provider := c.provider.detach, reading := none }
  | .drop => { c with provider := c.provider.stop, reading := none, isDropped := true }
  | .arrive link m =>
    if c.isClosed link then c
    else { c with incoming := Function.update c.incoming link (c.incoming link ++ [m]) }
  | .close link => { c with isClosed := Function.update c.isClosed link true }
  | .read =>
    match c.reading with
    | none => c
    | some link => c.readNext link
  | .own a => if a.isOwn then { c with provider := c.provider.act a } else c

def run (c : Connection) (turns : List Turn) : Connection :=
  turns.foldl next c

/-! ### What was read over a link -/

/-- The messages that were read over one link, in order. -/
def readOver (heard : List (Nat × SyncMessage)) (link : Nat) : List SyncMessage :=
  (heard.filter (·.1 == link)).map (·.2)

/-- The messages that were read over the present link; none without a link. -/
def current (c : Connection) : List SyncMessage :=
  (c.reading.map (readOver c.heard)).getD []

def bringsDocument : SyncMessage → Bool
  | .syncState _ _ => true
  | _ => false

/-- What a message says of a client: its state, or that it is not present. -/
def presenceOf (client : String) : SyncMessage → Option (Option Value)
  | .awareness _ other state => if other = client then some state else none
  | _ => none

/-- Presence of others once a message was read. -/
def notePresence (peers : Entries Value) : SyncMessage → Entries Value
  | .awareness _ client (some state) => Entries.put client state peers
  | .awareness _ client none => Entries.remove client peers
  | _ => peers

variable {c : Connection} {p : Provider} {m : SyncMessage} {ms : List SyncMessage} {link : Nat}

theorem readOver_append (heard more : List (Nat × SyncMessage)) (link : Nat) :
    readOver (heard ++ more) link = readOver heard link ++ readOver more link := by
  simp [readOver]

theorem readOver_own (link : Nat) (m : SyncMessage) : readOver [(link, m)] link = [m] := by
  simp [readOver]

/-- Over a link that is not given yet nothing was read. -/
theorem readOver_eq_nil {heard : List (Nat × SyncMessage)} (h : ∀ e ∈ heard, e.1 < link) :
    readOver heard link = [] := by
  have hnone : heard.filter (·.1 == link) = [] :=
    List.filter_eq_nil_iff.2 fun e he => by simpa using (h e he).ne
  rw [readOver, hnone, List.map_nil]

theorem get?_notePresence (client : String) (peers : Entries Value) (m : SyncMessage) :
    Entries.get? client (notePresence peers m) = (presenceOf client m).getD (Entries.get? client peers) := by
  cases m with
  | awareness d other state =>
    cases state with
    | some s =>
      rw [notePresence, Entries.get?_put, presenceOf]
      by_cases h : client = other
      · simp [h]
      · rw [if_neg h, if_neg (Ne.symm h)]
        rfl
    | none =>
      rw [notePresence, Entries.get?_remove, presenceOf]
      by_cases h : client = other
      · simp [h]
      · rw [if_neg h, if_neg (Ne.symm h)]
        rfl
  | _ => rfl

/-- What a replica shows of its link is what was read over it. -/
structure Follows (c : Connection) : Prop where
  link : c.provider.link.isSome = c.reading.isSome
  connected : c.provider.status.connected = c.reading.isSome
  synced : c.provider.status.synced = c.current.any bringsDocument
  peers : c.provider.peers = c.current.foldl notePresence []
  /-- No link has a number that was not given yet. -/
  read : ∀ e ∈ c.heard, e.1 < c.given
  reads : ∀ link ∈ c.reading, link < c.given

/-- Without a link nothing is shown of one. -/
theorem follows_linkDown (hread : ∀ e ∈ c.heard, e.1 < c.given) (p : Provider) (given : Nat)
    (hgiven : c.given ≤ given) (isDropped : Bool) :
    Follows { c with provider := p.linkDown, reading := none, given, isDropped } where
  link := rfl
  connected := rfl
  synced := rfl
  peers := rfl
  read e he := (hread e he).trans_le hgiven
  reads := nofun

theorem peers_receive (p : Provider) (m : SyncMessage) : (p.receive m).peers = notePresence p.peers m := by
  cases m with
  | awareness d client state => cases state <;> rfl
  | _ => rfl

theorem status_receive (p : Provider) (m : SyncMessage) :
    (p.receive m).status.connected = p.status.connected ∧
      (p.receive m).status.synced = (p.status.synced || bringsDocument m) := by
  cases m with
  | awareness d client state => cases state <;> simp [Provider.receive, bringsDocument]
  | _ => simp [Provider.receive, Provider.acknowledge, bringsDocument]

/-- One more message is read over the present link. -/
theorem Follows.receive (h : c.Follows) (hl : c.reading = some link) (m : SyncMessage)
    (incoming : Nat → List SyncMessage) :
    Follows { c with provider := c.provider.receive m, incoming, heard := c.heard ++ [(link, m)] } := by
  have hcurrent : current { c with provider := c.provider.receive m, incoming, heard := c.heard ++ [(link, m)] } =
      c.current ++ [m] := by
    simp [current, hl, readOver_append, readOver_own]
  obtain ⟨hconnected, hsynced⟩ := status_receive c.provider m
  refine ⟨?_, ?_, ?_, ?_, ?_, h.reads⟩
  · exact (congrArg Option.isSome (link_receive c.provider m)).trans h.link
  · exact hconnected.trans h.connected
  · rw [hcurrent, List.any_append, ← h.synced]
    simpa using hsynced
  · rw [hcurrent, List.foldl_append, ← h.peers]
    exact peers_receive c.provider m
  · intro e he
    rcases List.mem_append.1 he with he | he
    · exact h.read e he
    · rw [List.mem_singleton.1 he]
      exact h.reads link hl

/-- A link with a new number is there, and nothing was read over it. -/
theorem Follows.attach (h : c.Follows) :
    Follows { c with
      provider := (c.provider.attach {}).2, given := c.given + 1, reading := some c.given } := by
  have hnone : readOver c.heard c.given = [] := readOver_eq_nil h.read
  refine ⟨rfl, rfl, ?_, ?_, fun e he => Nat.lt_succ_of_lt (h.read e he), ?_⟩
  · change false = (readOver c.heard c.given).any bringsDocument
    rw [hnone]
    rfl
  · change [] = (readOver c.heard c.given).foldl notePresence []
    rw [hnone]
    rfl
  · intro link hlink
    cases (show some c.given = some link from hlink)
    exact Nat.lt_succ_self _

/-- The link is there or not as before, and nothing else that follows it is touched. -/
structure LeavesLink (p p' : Provider) : Prop where
  link : p'.link.isSome = p.link.isSome
  connected : p'.status.connected = p.status.connected
  synced : p'.status.synced = p.status.synced
  peers : p'.peers = p.peers

theorem leavesLink_act {a : Provider.Action} (ha : a.isOwn = true) (p : Provider) : LeavesLink p (p.act a) := by
  cases a with
  | write field value =>
    rw [Provider.act, Provider.set]
    split
    · exact ⟨rfl, rfl, rfl, rfl⟩
    · dsimp only
      split
      · exact ⟨Option.isSome_map, rfl, rfl, rfl⟩
      · exact ⟨rfl, rfl, rfl, rfl⟩
  | merge u => exact ⟨rfl, rfl, rfl, rfl⟩
  | publish state =>
    rw [Provider.act, Provider.publish]
    split
    · exact ⟨rfl, rfl, rfl, rfl⟩
    · next l hl =>
      split
      · exact ⟨rfl, rfl, rfl, rfl⟩
      · exact ⟨by rw [hl]; rfl, rfl, rfl, rfl⟩
  | take =>
    rw [Provider.act, Provider.takeNext]
    split
    · next l hl =>
      split
      · exact ⟨by rw [hl]; rfl, rfl, rfl, rfl⟩
      · exact ⟨rfl, rfl, rfl, rfl⟩
    · exact ⟨rfl, rfl, rfl, rfl⟩
  | deafen => exact ⟨Option.isSome_map, rfl, rfl, rfl⟩
  | attach isRead | detach | lose | receive m => cases ha

theorem Follows.leaves (h : c.Follows) (hp : LeavesLink c.provider p) : Follows { c with provider := p } where
  link := hp.link.trans h.link
  connected := hp.connected.trans h.connected
  synced := hp.synced.trans h.synced
  peers := hp.peers.trans h.peers
  read := h.read
  reads := h.reads

theorem Follows.readNext (h : c.Follows) (hl : c.reading = some link) : (c.readNext link).Follows := by
  unfold Connection.readNext
  split
  · next m r _ => exact h.receive hl m _
  · split
    · exact follows_linkDown h.read c.provider c.given le_rfl c.isDropped
    · exact h

theorem Follows.next (h : c.Follows) (t : Turn) : (c.next t).Follows := by
  cases t with
  | attach isRead =>
    rw [Connection.next]
    split
    · exact h
    · cases isRead with
      | true => exact h.attach
      | false => exact follows_linkDown h.read c.provider (c.given + 1) (Nat.le_succ _) c.isDropped
  | detach =>
    rw [Connection.next]
    split
    · exact h
    · exact follows_linkDown h.read c.provider c.given le_rfl c.isDropped
  | drop => exact follows_linkDown h.read { c.provider with isTracking := false } c.given le_rfl true
  | arrive link m =>
    rw [Connection.next]
    split
    · exact h
    · exact ⟨h.link, h.connected, h.synced, h.peers, h.read, h.reads⟩
  | close link => exact ⟨h.link, h.connected, h.synced, h.peers, h.read, h.reads⟩
  | read =>
    rw [Connection.next]
    split
    · exact h
    · next link hl => exact h.readNext hl
  | own a =>
    rw [Connection.next]
    split
    · next ha => exact h.leaves (leavesLink_act ha c.provider)
    · exact h

theorem Follows.run (h : c.Follows) (turns : List Turn) : (c.run turns).Follows := by
  induction turns generalizing c with
  | nil => exact h
  | cons t turns ih => exact ih (h.next t)

/-- The relay's document is on its way over a link that is replaced before it is read, and presence comes over the
new one. -/
def replaced : List Turn :=
  [.attach true, .arrive 0 (.syncState "d" []), .attach true, .read, .arrive 1 (.awareness "d" "eve" (some .null)),
    .read]

end Connection

end SecureLayout.Collab
