import Mathlib.Data.List.Infix
import SecureLayout.Proofs.Collab.Operations

/-!
A relay's rooms, its presence and its connections. Main statements: after every operation a room lists
exactly the peers on its document, nobody is present who is not connected, and no id was given out twice;
peers whose queues were full are gone. Whatever happens at a relay, what was put into the queue of a peer that is
not given up stays in it, in order, until it is read.
-/

namespace SecureLayout.Collab

open Json (Value)
open Wire (FieldUpdate SyncMessage)

namespace Hub

/-- Rooms and presence are in step with the connections. -/
structure Consistent (h : Hub) : Prop extends Orderly h where
  registered : ∀ doc, ∀ i ∈ (h.room doc).members, ∃ p ∈ h.peers, p.id = i
  present : ∀ doc client s, h.awareness.get? doc client = some s →
    ∃ p ∈ h.peers, p.doc = doc ∧ p.client = client

variable {h h' : Hub} {id i : Nat} {m : SyncMessage} {e : Event} {agenda : Agenda} {full : List Nat}

theorem Consistent.empty (policy : SecurityPolicy) : Consistent { policy } where
  toOrderly := .empty policy
  registered _ _ hi := absurd hi List.not_mem_nil
  present _ _ _ hs := by cases hs

/-- Connections may change in everything but what they are known by. -/
theorem Consistent.congr (hs : h.Consistent) (ho : h'.Orderly)
    (hpeers : ∀ p ∈ h.peers, ∃ q ∈ h'.peers, q.id = p.id ∧ q.doc = p.doc ∧ q.client = p.client)
    (hmembers : ∀ doc, (h'.room doc).members = (h.room doc).members)
    (hawareness : h'.awareness = h.awareness) : h'.Consistent := by
  refine ⟨ho, fun doc i hi => ?_, fun doc client s hget => ?_⟩
  · rw [hmembers] at hi
    obtain ⟨p, hp, rfl⟩ := hs.registered doc i hi
    obtain ⟨q, hq, he, -⟩ := hpeers p hp
    exact ⟨q, hq, he⟩
  · rw [hawareness] at hget
    obtain ⟨p, hp, rfl, rfl⟩ := hs.present doc client s hget
    obtain ⟨q, hq, -, hd, hc⟩ := hpeers p hp
    exact ⟨q, hq, hd, hc⟩

theorem Consistent.mem_members_iff (hs : h.Consistent) (doc : String) (i : Nat) :
    i ∈ (h.room doc).members ↔ ∃ p, h.peer? i = some p ∧ p.doc = doc := by
  constructor
  · intro hi
    obtain ⟨p, hp, rfl⟩ := hs.registered doc i hi
    exact ⟨p, hs.peer?_of_mem hp, ((hs.member p hp doc).1 hi).symm⟩
  · rintro ⟨p, hp, rfl⟩
    obtain ⟨hmem, rfl⟩ := peer?_eq_some hp
    exact (hs.member p hmem p.doc).2 rfl

/-- A document has as many peers as are connected to it. -/
theorem Consistent.peerCount_eq (hs : h.Consistent) (doc : String) :
    h.peerCount doc = (h.peers.filter (·.doc == doc)).length := by
  have hnodup : ((h.peers.filter (·.doc == doc)).map (·.id)).Nodup :=
    List.pairwise_map.2 (hs.distinct.filter _)
  have hsame : ∀ i, i ∈ (h.room doc).members ↔ i ∈ (h.peers.filter (·.doc == doc)).map (·.id) := by
    intro i
    rw [hs.mem_members_iff]
    simp only [List.mem_map, List.mem_filter, beq_iff_eq]
    constructor
    · rintro ⟨p, hp, hd⟩
      obtain ⟨hmem, hid⟩ := peer?_eq_some hp
      exact ⟨p, ⟨hmem, hd⟩, hid⟩
    · rintro ⟨p, ⟨hmem, hd⟩, rfl⟩
      exact ⟨p, hs.peer?_of_mem hmem, hd⟩
  have hperm := (List.perm_ext_iff_of_nodup (hs.nodup doc) hnodup).2 hsame
  rw [peerCount, hperm.length_eq, List.length_map]

/-! ### One connection ends -/

theorem awareness_dropped {p : Peer} (hp : h.peer? id = some p) :
    (h.dropped id).1.awareness = (h.awareness.leave p.doc p.client).2 := by
  have hforget : (h.forget p).awareness = h.awareness := rfl
  cases hc : Entries.contains p.client (h.awareness.states p.doc) <;>
    simp only [dropped, hp, hforget, Awareness.leave, hc, if_true, Bool.false_eq_true, if_false]

theorem mem_members_dropped {p : Peer} (hp : h.peer? id = some p) {doc : String}
    (hi : i ∈ ((h.dropped id).1.room doc).members) :
    i ∈ (h.room doc).members ∧ (doc = p.doc → i ≠ id) := by
  have hroom : (h.dropped id).1.room doc = (h.forget p).room doc := by
    unfold dropped
    rw [hp]
    dsimp only
    split <;> rfl
  have hforget : (h.forget p).room doc =
      if doc = p.doc then { h.room p.doc with members := (h.room p.doc).members.filter (· != p.id) }
      else h.room doc := room_putRoom h p.doc doc _
  obtain ⟨-, rfl⟩ := peer?_eq_some hp
  rw [hroom, hforget] at hi
  split at hi
  · next he =>
    obtain ⟨hmem, hne⟩ := List.mem_filter.1 hi
    exact ⟨he ▸ hmem, fun _ => by simpa using hne⟩
  · next hne => exact ⟨hi, fun he => absurd he hne⟩

theorem Consistent.dropped (hs : h.Consistent) (id : Nat) : (h.dropped id).1.Consistent := by
  cases hp : h.peer? id with
  | none =>
    rw [dropped_of_unknown hp]
    exact hs
  | some p =>
    have hstays : ∀ q ∈ h.peers, q.id ≠ id → q ∈ (h.dropped id).1.peers := by
      intro q hq hne
      rw [peers_dropped hp]
      exact List.mem_filter.2 ⟨hq, by simpa using hne⟩
    refine ⟨(sends_dropped h id).1.orderly hs.toOrderly, fun doc i hi => ?_, fun doc client s hget => ?_⟩
    · obtain ⟨hmem, hne⟩ := mem_members_dropped hp hi
      obtain ⟨q, hq, hd⟩ := (hs.mem_members_iff doc i).1 hmem
      obtain ⟨hqm, rfl⟩ := peer?_eq_some hq
      refine ⟨q, hstays q hqm fun he => hne ?_ he, rfl⟩
      rw [he, hp] at hq
      cases hq
      exact hd.symm
    · rw [awareness_dropped hp, Awareness.get?_leave] at hget
      split at hget
      · cases hget
      · next hother =>
        obtain ⟨q, hq, hd, hc⟩ := hs.present doc client s hget
        refine ⟨q, hstays q hq ?_, hd, hc⟩
        rintro rfl
        rw [hs.peer?_of_mem hq] at hp
        cases hp
        exact hother ⟨hd.symm, hc.symm⟩

theorem enqueue_mailboxes (h : Hub) (id : Nat) (m : SyncMessage) :
    ∃ mailboxes, (h.enqueue id m).2 = { h with mailboxes } := by
  unfold enqueue
  split
  · split
    · exact ⟨_, rfl⟩
    · split <;> exact ⟨_, rfl⟩
  · exact ⟨_, rfl⟩

theorem Consistent.enqueue (hs : h.Consistent) (id : Nat) (m : SyncMessage) : (h.enqueue id m).2.Consistent := by
  have ho := (sends_enqueue h id m).orderly hs.toOrderly
  obtain ⟨mailboxes, he⟩ := enqueue_mailboxes h id m
  rw [he] at ho ⊢
  exact hs.congr ho (fun p hp => ⟨p, hp, rfl, rfl, rfl⟩) (fun _ => rfl) rfl

theorem Delivers.consistent (d : Delivers h agenda full h') (hs : h.Consistent) : h'.Consistent := by
  induction d with
  | done h => exact hs
  | @queued h h₁ h' id m rest full he _ ih =>
    have hone := hs.enqueue id m
    rw [he] at hone
    exact ih hone
  | @overflowed h h₁ h₂ h' id m rest full full' he _ _ ihdrop ihrest =>
    obtain ⟨rfl, -⟩ := enqueue_eq_true he
    exact ihrest (ihdrop (hs.dropped id))

/-! ### Operations -/

theorem Consistent.connect (hs : h.Consistent) {doc client : String}
    (hc : h.connect doc client = .ok (id, h')) : h'.Consistent := by
  have hroom := fun d => room_connect hc d
  have ho := hs.toOrderly.connect hc
  obtain ⟨-, hh⟩ := connect_eq_ok hc
  have hpeers : ∀ p, p ∈ h.peers ∨ p = { id, doc, client } → p ∈ h'.peers := by
    rw [hh]
    simp
  refine ⟨ho, fun d i hi => ?_, fun d c s hget => ?_⟩
  · have hmem : i ∈ (h.room d).members ∨ i = id := by
      rw [hroom] at hi
      split at hi
      · next he =>
        rw [he]
        exact (List.mem_append.1 hi).imp_right List.mem_singleton.1
      · exact .inl hi
    rcases hmem with hmem | rfl
    · obtain ⟨p, hp, rfl⟩ := hs.registered d i hmem
      exact ⟨p, hpeers p (.inl hp), rfl⟩
    · exact ⟨_, hpeers _ (.inr rfl), rfl⟩
  · have hget : h.awareness.get? d c = some s := by
      rw [hh] at hget
      exact hget
    obtain ⟨p, hp, hpd, hpc⟩ := hs.present d c s hget
    exact ⟨p, hpeers p (.inl hp), hpd, hpc⟩

theorem Consistent.updateMailbox (hs : h.Consistent) (id : Nat) (f : Mailbox → Mailbox)
    (hf : ∀ b, (f b).owner = b.owner) : (h.updateMailbox id f).Consistent :=
  hs.congr (hs.toOrderly.updateMailbox id f hf) (fun p hp => ⟨p, hp, rfl, rfl, rfl⟩) (fun _ => rfl) rfl

/-- Presence of a client that is connected. -/
theorem Consistent.applyAwareness (hs : h.Consistent) {p : Peer} (hp : p ∈ h.peers) (state : Option Value) :
    Consistent { h with awareness := h.awareness.apply p.doc p.client state } := by
  refine ⟨(sends_awareness h _).orderly hs.toOrderly, hs.registered, fun doc client s hget => ?_⟩
  change (h.awareness.apply p.doc p.client state).get? doc client = some s at hget
  cases state with
  | none =>
    rw [Awareness.apply, Awareness.get?_leave] at hget
    split at hget
    · cases hget
    · exact hs.present doc client s hget
  | some x =>
    rw [Awareness.apply, Awareness.get?_set] at hget
    split at hget
    · next he => exact ⟨p, hp, he.1.symm, he.2.symm⟩
    · exact hs.present doc client s hget

theorem mem_peers_bind {p : Peer} (hp : p ∈ h.peers) (id : Nat) (r : String) :
    ∃ q ∈ (h.bind id r).peers, q.id = p.id ∧ q.doc = p.doc ∧ q.client = p.client := by
  refine ⟨_, List.mem_map_of_mem hp, ?_⟩
  split <;> exact ⟨rfl, rfl, rfl⟩

theorem Consistent.bind (hs : h.Consistent) (id : Nat) (r : String) : (h.bind id r).Consistent :=
  hs.congr (hs.toOrderly.bind id r) (fun _ hp => mem_peers_bind hp id r) (fun _ => rfl) rfl

theorem Consistent.taken (hs : h.Consistent) (p : Peer) (u : FieldUpdate) : (h.taken p u).Consistent :=
  hs.congr (hs.toOrderly.taken p u) (fun _ hp => mem_peers_bind hp p.id u.clock.replica)
    (members_taken h p u) rfl

/-- What a message changes before anything is sent: a peer's binding, a document or presence. -/
theorem plan_hub (h : Hub) (id : Nat) (m : SyncMessage) :
    (h.plan id m).hub = h ∨ ∃ p ∈ h.peers,
      (∃ u, (h.plan id m).hub = h.bind p.id u.clock.replica ∨ (h.plan id m).hub = h.taken p u) ∨
      ∃ state, (h.plan id m).hub = { h with awareness := h.awareness.apply p.doc p.client state } := by
  unfold plan
  cases hp : h.peer? id with
  | none => exact .inl rfl
  | some p =>
    have hmem := (peer?_eq_some hp).1
    dsimp only
    split
    · exact .inl rfl
    · cases m with
      | update d seq u =>
        dsimp only
        rcases updatePlan_cases h p seq u with ⟨r, g, rfl | rfl, he⟩ | he <;> rw [he]
        · exact .inl rfl
        · exact .inr ⟨p, hmem, .inl ⟨u, .inl rfl⟩⟩
        · exact .inr ⟨p, hmem, .inl ⟨u, .inr rfl⟩⟩
      | awareness d c state => exact .inr ⟨p, hmem, .inr ⟨state, rfl⟩⟩
      | _ => exact .inl rfl

theorem Consistent.plan (hs : h.Consistent) (id : Nat) (m : SyncMessage) : (h.plan id m).hub.Consistent := by
  rcases plan_hub h id m with he | ⟨p, hp, ⟨u, he | he⟩ | ⟨state, he⟩⟩
  · rw [he]
    exact hs
  · rw [he]
    exact hs.bind p.id _
  · rw [he]
    exact hs.taken p u
  · rw [he]
    exact hs.applyAwareness hp state

theorem Performs.consistent (a : Performs h e full h') (hs : h.Consistent) : h'.Consistent := by
  cases a with
  | connected hc => exact hs.connect hc
  | notConnected _ => exact hs
  | handled d d' => exact d'.consistent (d.consistent (hs.plan _ _))
  | disconnected d => exact d.consistent (hs.dropped _)
  | read ht =>
    obtain ⟨r, -, rfl⟩ := takeNext_eq_some ht
    exact hs.updateMailbox _ _ fun _ => rfl
  | nothingToRead _ => exact hs
  | abandoned => exact hs.updateMailbox _ _ fun _ => rfl

/-! ### Ids -/

theorem plan_ids (h : Hub) (id : Nat) (m : SyncMessage) (i : Nat) :
    (h.plan id m).hub.nextPeer = h.nextPeer ∧
      ((h.plan id m).hub.peer? i).isSome = (h.peer? i).isSome := by
  have hbind : ∀ (p : Peer) (u : FieldUpdate),
      ((h.bind p.id u.clock.replica).peer? i).isSome = (h.peer? i).isSome := by
    intro p u
    rw [peer?_bind, Option.isSome_map]
  rcases plan_hub h id m with he | ⟨p, -, ⟨u, he | he⟩ | ⟨state, he⟩⟩
  · rw [he]
    exact ⟨rfl, rfl⟩
  · rw [he]
    exact ⟨rfl, hbind p u⟩
  · rw [he]
    exact ⟨rfl, hbind p u⟩
  · rw [he]
    exact ⟨rfl, rfl⟩

theorem Performs.nextPeer_le (a : Performs h e full h') : h.nextPeer ≤ h'.nextPeer := by
  cases a with
  | connected hc =>
    obtain ⟨rfl, rfl⟩ := connect_eq_ok hc
    exact Nat.le_succ _
  | notConnected _ => exact le_refl _
  | @handled h₁ _ id m _ _ d d' =>
    rw [d'.sends.nextPeer, d.sends.nextPeer, (plan_ids h id m 0).1]
  | @disconnected _ id _ d =>
    rw [d.sends.nextPeer, (sends_dropped h id).1.nextPeer]
  | read ht =>
    obtain ⟨r, -, rfl⟩ := takeNext_eq_some ht
    exact le_refl _
  | nothingToRead _ => exact le_refl _
  | abandoned => exact le_refl _

/-- Whoever is gone does not come back. -/
theorem Performs.peer?_eq_none (a : Performs h e full h') (hs : h.Orderly) (hi : i < h.nextPeer)
    (hp : h.peer? i = none) : h'.peer? i = none := by
  cases a with
  | connected hc =>
    have hne : i ≠ _ := fun he => absurd ((connect_eq_ok hc).1 ▸ he ▸ hi) (lt_irrefl _)
    rw [peer?_connect hs hc, if_neg hne, hp]
  | notConnected _ => exact hp
  | @handled _ _ id m _ _ d d' =>
    refine d'.sends.peer?_eq_none (d.sends.peer?_eq_none ?_)
    rw [← Option.isNone_iff_eq_none, ← Option.not_isSome, (plan_ids h id m i).2, hp]
    rfl
  | @disconnected _ id _ d => exact d.sends.peer?_eq_none ((sends_dropped h id).1.peer?_eq_none hp)
  | read ht =>
    obtain ⟨r, -, rfl⟩ := takeNext_eq_some ht
    exact hp
  | nothingToRead _ => exact hp
  | abandoned => exact hp

/-- Whoever an operation found with a full queue is gone after it. -/
theorem Performs.gone (a : Performs h e full h') (hs : h.Orderly) (hi : i ∈ full) :
    i < h.nextPeer ∧ h'.peer? i = none := by
  have hknown : (h.peer? i).isSome → i < h.nextPeer := by
    intro hsome
    obtain ⟨p, hp⟩ := Option.isSome_iff_exists.1 hsome
    obtain ⟨hmem, rfl⟩ := peer?_eq_some hp
    exact hs.peerIds p hmem
  cases a with
  | @handled h₁ _ id m full₁ full₂ d d' =>
    have hplan := (plan_ids h id m i).2
    rcases List.mem_append.1 hi with hi | hi
    · obtain ⟨hsome, hnone⟩ := d.gone hi
      exact ⟨hknown (hplan ▸ hsome), d'.sends.peer?_eq_none hnone⟩
    · obtain ⟨hsome, hnone⟩ := d'.gone hi
      exact ⟨hknown (hplan ▸ d.sends.isSome_before hsome), hnone⟩
  | @disconnected _ id _ d =>
    obtain ⟨hsome, hnone⟩ := d.gone hi
    exact ⟨hknown ((sends_dropped h id).1.isSome_before hsome), hnone⟩
  | connected _ => cases hi
  | notConnected _ => cases hi
  | read _ => cases hi
  | nothingToRead _ => cases hi
  | abandoned => cases hi

end Hub

namespace History

/-- The id that an event makes the relay give out. -/
def issued? (t : History) : Event → Option Nat
  | .connect doc client => (t.hub.connect doc client).toOption.map (·.1)
  | _ => none

/-- Ids that events make the relay give out, in order. -/
def issued (t : History) : List Event → List Nat
  | [] => []
  | e :: events => (t.issued? e).toList ++ (t.next e).issued events

theorem consistent_after (policy : SecurityPolicy) (events : List Event) :
    (after policy events).hub.Consistent := by
  induction events using List.reverseRecOn with
  | nil => exact .empty policy
  | append_singleton events e ih =>
    obtain ⟨full, a⟩ := Hub.performs_next (after policy events) e
    rw [after_concat]
    exact a.consistent ih

/-- An id that is given out is the next one, and the one after it is next from then on. -/
theorem issued?_eq_some {t : History} {e : Event} {i : Nat} (h : t.issued? e = some i) :
    i = t.hub.nextPeer ∧ i < (t.next e).hub.nextPeer := by
  cases e with
  | connect doc client =>
    cases hc : t.hub.connect doc client with
    | error e =>
      simp only [issued?, hc] at h
      cases h
    | ok x =>
      obtain ⟨id, hub⟩ := x
      simp only [issued?, hc] at h
      cases h
      have hnext : (t.next (.connect doc client)).hub = hub := by simp only [next, hc]
      obtain ⟨hid, hhub⟩ := Hub.connect_eq_ok hc
      rw [hnext, hhub]
      exact ⟨hid, Nat.lt_succ_self _⟩
  | _ => cases h

/-- Later ids are greater. -/
theorem issued_increasing (t : History) (events : List Event) :
    (t.issued events).Pairwise (· < ·) ∧ ∀ i ∈ t.issued events, t.hub.nextPeer ≤ i := by
  induction events generalizing t with
  | nil => exact ⟨.nil, fun i hi => absurd hi List.not_mem_nil⟩
  | cons e events ih =>
    obtain ⟨hpairs, hlater⟩ := ih (t.next e)
    obtain ⟨full, a⟩ := Hub.performs_next t e
    unfold issued
    cases hi : t.issued? e with
    | none => exact ⟨hpairs, fun i hmem => a.nextPeer_le.trans (hlater i hmem)⟩
    | some id =>
      obtain ⟨rfl, hlt⟩ := issued?_eq_some hi
      refine ⟨List.pairwise_cons.2 ⟨fun j hj => lt_of_lt_of_le hlt (hlater j hj), hpairs⟩, fun j hj => ?_⟩
      rcases List.mem_cons.1 hj with rfl | hj
      · exact le_refl _
      · exact (le_of_lt hlt).trans (hlater j hj)

/-- Whoever was ever found with a full queue is gone for good. -/
theorem gone_of_runs {policy : SecurityPolicy} {events : List Event} {full : List Nat} {h : Hub}
    (r : Hub.Runs policy events full h) : ∀ i ∈ full, i < h.nextPeer ∧ h.peer? i = none := by
  induction r with
  | start => exact fun i hi => absurd hi List.not_mem_nil
  | @next events e full full' h h' hrun hstep ih =>
    have ho : h.Orderly := hub_of_runs hrun ▸ (consistent_after policy events).toOrderly
    intro i hi
    rcases List.mem_append.1 hi with hi | hi
    · obtain ⟨hlt, hnone⟩ := ih i hi
      exact ⟨lt_of_lt_of_le hlt hstep.nextPeer_le, hstep.peer?_eq_none ho hlt hnone⟩
    · obtain ⟨hlt, hnone⟩ := hstep.gone ho hi
      exact ⟨lt_of_lt_of_le hlt hstep.nextPeer_le, hnone⟩

/-- Every run of a relay ends, in one way, however many full queues it meets. After it rooms list exactly
the peers that are connected to their documents, ids were given out once each, nobody is present without a
connection, and nobody whose queue was full is connected. -/
theorem rooms_match_connections (policy : SecurityPolicy) (events : List Event) :
    (∃ full, Hub.Runs policy events full (after policy events).hub ∧
      (∀ full' h, Hub.Runs policy events full' h → full' = full ∧ h = (after policy events).hub) ∧
      ∀ i ∈ full, (after policy events).hub.peer? i = none) ∧
    (∀ doc i, i ∈ ((after policy events).hub.room doc).members ↔
      ∃ p, (after policy events).hub.peer? i = some p ∧ p.doc = doc) ∧
    (∀ doc, (after policy events).hub.peerCount doc =
      ((after policy events).hub.peers.filter (·.doc == doc)).length) ∧
    ((after policy []).issued events).Pairwise (· < ·) ∧
    (∀ doc client s, (after policy events).hub.awareness.get? doc client = some s →
      ∃ p ∈ (after policy events).hub.peers, p.doc = doc ∧ p.client = client) := by
  have hs := consistent_after policy events
  obtain ⟨full, r⟩ := runs_after policy events
  have hrun : ∃ full, Hub.Runs policy events full (after policy events).hub ∧
      (∀ full' h, Hub.Runs policy events full' h → full' = full ∧ h = (after policy events).hub) ∧
      ∀ i ∈ full, (after policy events).hub.peer? i = none :=
    ⟨full, r, fun full' h r' => ⟨full_of_runs r r', hub_of_runs r'⟩, fun i hi => (gone_of_runs r i hi).2⟩
  exact ⟨hrun, hs.mem_members_iff, hs.peerCount_eq, (issued_increasing _ events).1, hs.present⟩

end History

/-! ### What a queue keeps -/

/-- What only the owner of a connection does: it sends messages over it and reads its queue. -/
def Event.IsOwn (id : Nat) : Event → Prop
  | .handle i _ => i = id
  | .read i => i = id
  | .abandon i => i = id
  | _ => False

/-- The message of a peer that an event makes the relay handle. -/
def Event.messageOf? (id : Nat) : Event → Option SyncMessage
  | .handle i m => if i = id then some m else none
  | _ => none

theorem Hub.mail_plan (h : Hub) (id : Nat) (m : SyncMessage) (i : Nat) : (h.plan id m).hub.mail i = h.mail i := by
  rcases Hub.plan_hub h id m with he | ⟨p, -, ⟨u, he | he⟩ | ⟨state, he⟩⟩ <;> rw [he] <;> rfl

namespace History

variable {t : History} {id : Nat} {e : Event}

/-- Whatever happens, a queue that is not given up keeps what was put into it until that is read. -/
theorem enqueued_next (ho : t.hub.Orderly) (hid : id < t.hub.nextPeer) (e : Event) (he : e ≠ .abandon id) :
    t.enqueued id <+: (t.next e).enqueued id := by
  cases e with
  | connect doc client =>
    unfold enqueued next
    dsimp only
    split
    · next new hub hc =>
      have hne : id ≠ new := fun h => absurd ((Hub.connect_eq_ok hc).1 ▸ h ▸ hid) (lt_irrefl _)
      rw [Hub.mail_connect ho hc, if_neg hne]
    · exact List.prefix_rfl
  | handle i m =>
    obtain ⟨full, d⟩ := Hub.delivers_sendEach (t.hub.plan i m).hub (t.hub.plan i m).first
    obtain ⟨full', d'⟩ := Hub.delivers_sendEach _ ((t.hub.plan i m).second _)
    obtain ⟨ms, hms, -⟩ := (d.sends.mail id)
    obtain ⟨ms', hms', -⟩ := (d'.sends.mail id)
    have hhub : (t.next (.handle i m)).hub = (t.hub.plan i m).run := Hub.handle_eq_plan t.hub i m
    unfold enqueued
    rw [hhub, Hub.Plan.run, hms', hms, Hub.mail_plan]
    simp only [← List.append_assoc]
    exact (List.prefix_append _ _).trans (List.prefix_append _ _)
  | disconnect i =>
    obtain ⟨ms, hms, -⟩ := (Hub.sends_disconnect t.hub i).mail id
    change t.heard id ++ t.hub.mail id <+: t.heard id ++ (t.hub.disconnect i).mail id
    rw [hms, ← List.append_assoc]
    exact List.prefix_append _ _
  | read i =>
    unfold next
    dsimp only
    split
    · next m hub ht =>
      obtain ⟨r, -, rfl⟩ := Hub.takeNext_eq_some ht
      have hf : ∀ b : Mailbox, ({ b with queue := r } : Mailbox).owner = b.owner := fun _ => rfl
      unfold enqueued
      dsimp only
      by_cases hi : id = i
      · subst hi
        rw [Function.update_self, List.append_assoc, Hub.mail_takeNext ht]
        exact List.prefix_rfl
      · rw [Function.update_of_ne hi, Hub.mail_updateMailbox t.hub i id _ hf hi]
    · exact List.prefix_rfl
  | abandon i =>
    have hi : id ≠ i := fun h => he (h ▸ rfl)
    have hf : ∀ b : Mailbox, ({ b with queue := [], isRead := false } : Mailbox).owner = b.owner := fun _ => rfl
    unfold enqueued next Hub.abandon
    dsimp only
    rw [Hub.mail_updateMailbox t.hub i id _ hf hi]

/-- Rooms and peers stay in step, ids are not given out again, and who is gone stays so. -/
theorem upkeep_next (hs : t.hub.Consistent) (hid : id < t.hub.nextPeer) (e : Event) :
    (t.next e).hub.Consistent ∧ id < (t.next e).hub.nextPeer ∧
      (t.hub.peer? id = none → (t.next e).hub.peer? id = none) := by
  obtain ⟨full, a⟩ := Hub.performs_next t e
  exact ⟨a.consistent hs, hid.trans_le a.nextPeer_le, a.peer?_eq_none hs.toOrderly hid⟩

end History

end SecureLayout.Collab
