import SecureLayout.Proofs.Collab.Acknowledgement

/-!
Which writes a relay lets in. Main statement: whatever it is sent, its replicas are made of admitted writes alone,
each of a field that may be written and under a replica id that is its peer's own, one id a connection; and a
message that is not taken, if there is room for the answer, changes nothing but whom its sender writes as.
-/

namespace SecureLayout.Collab

open Wire (Clock FieldUpdate SyncMessage)

namespace Hub

variable {h h₁ h' : Hub} {id i : Nat} {p : Peer} {m : SyncMessage} {u : FieldUpdate} {e : Event} {full : List Nat}

/-! ### What is let in -/

/-- A peer may write this now: under an id that is neither blank nor the relay's, not too far ahead of the
document, under no other id than before, and to a field of the output. -/
structure Admits (h : Hub) (p : Peer) (u : FieldUpdate) : Prop where
  named : u.clock.replica ≠ "" ∧ u.clock.replica ≠ relayReplica
  inTime : u.clock.counter ≤ min ((h.replica p.doc).clock + greatestLead) Clock.greatestCounter
  own : ∀ r ∈ p.replica, r = u.clock.replica
  writable : h.policy.isOutputField u.field = true

theorem clockRefusal?_eq_none_iff (h : Hub) (p : Peer) (c : Clock) :
    h.clockRefusal? p c = none ↔ (c.replica ≠ "" ∧ c.replica ≠ relayReplica) ∧
      c.counter ≤ min ((h.replica p.doc).clock + greatestLead) Clock.greatestCounter ∧
      ∀ r ∈ p.replica, r = c.replica := by
  have hnamed : (c.replica.isEmpty || c.replica == relayReplica) = false ↔
      c.replica ≠ "" ∧ c.replica ≠ relayReplica := by
    simp
  have hown : (p.replica.any (· != c.replica)) = false ↔ ∀ r ∈ p.replica, r = c.replica := by
    cases p.replica <;> simp
  rw [← hnamed, ← hown, ← not_lt]
  unfold clockRefusal? replica
  split_ifs <;> simp_all

theorem verdict_eq_none_iff (h : Hub) (p : Peer) (u : FieldUpdate) :
    (h.verdict p u).1 = none ↔ h.Admits p u := by
  have hclock := clockRefusal?_eq_none_iff h p u.clock
  unfold verdict
  cases hr : h.clockRefusal? p u.clock with
  | some r =>
    refine ⟨nofun, fun a => ?_⟩
    rw [hclock.2 ⟨a.named, a.inTime, a.own⟩] at hr
    cases hr
  | none =>
    obtain ⟨hnamed, hin, hown⟩ := hclock.1 hr
    change (if h.policy.isOutputField u.field then none else some Refusal.lockedField) = none ↔ _
    constructor
    · intro hfield
      exact ⟨hnamed, hin, hown, by simpa using hfield⟩
    · intro a
      rw [if_pos a.writable]

theorem updatePlan_of_admits (a : h.Admits p u) (seq : Nat) :
    h.updatePlan p seq u = { hub := h.taken p u, first := [(p.id, .ack p.doc seq)], second := h.news p u } := by
  have hnone := (verdict_eq_none_iff h p u).2 a
  unfold updatePlan
  cases hv : h.verdict p u with
  | mk refusal g =>
    rw [hv] at hnone
    cases hnone
    rfl

/-- A peer that is refused is bound at most to what it wrote as before. -/
theorem updatePlan_of_not_admits (a : ¬ h.Admits p u) (seq : Nat) :
    ∃ (r : Refusal) (g : Hub),
      (g = h ∨ g = h.bind p.id u.clock.replica ∧ ∀ r' ∈ p.replica, r' = u.clock.replica) ∧
      h.updatePlan p seq u = { hub := g, first := [(p.id, r.toMessage), (p.id, .ack p.doc seq)] } := by
  rw [← verdict_eq_none_iff] at a
  unfold updatePlan
  unfold verdict at a ⊢
  cases hr : h.clockRefusal? p u.clock with
  | some r => exact ⟨r, h, .inl rfl, rfl⟩
  | none =>
    simp only [hr, ite_eq_left_iff, reduceCtorEq, imp_false, not_not] at a ⊢
    obtain ⟨-, -, hown⟩ := (clockRefusal?_eq_none_iff h p u.clock).1 hr
    rw [if_neg a]
    exact ⟨.lockedField, _, .inr ⟨rfl, hown⟩, rfl⟩

/-- A write that was let in, and the connection over which it came. -/
structure Admission where
  peer : Nat
  doc : String
  write : FieldUpdate

/-- Writes that were let in to one document. -/
def writesOn (doc : String) (admissions : List Admission) : List FieldUpdate :=
  (admissions.filter (·.doc == doc)).map (·.write)

/-- The write that an event brings in, if it brings one. -/
def admitted? (h : Hub) : Event → Option Admission
  | .handle id (.update doc _ u) =>
    (h.peer? id).bind fun p => if doc = p.doc ∧ (h.verdict p u).1.isNone then some ⟨id, doc, u⟩ else none
  | _ => none

theorem admitted?_handle (hp : h.peer? id = some p) (a : h.Admits p u) (seq : Nat) :
    h.admitted? (.handle id (.update p.doc seq u)) = some ⟨id, p.doc, u⟩ := by
  simp [admitted?, hp, (verdict_eq_none_iff h p u).2 a]

theorem admitted?_of_not_admits (hp : h.peer? id = some p) (a : ¬ h.Admits p u) (doc : String) (seq : Nat) :
    h.admitted? (.handle id (.update doc seq u)) = none := by
  rw [← verdict_eq_none_iff] at a
  simp [admitted?, hp, Option.isNone_iff_eq_none, a]

/-- A message brings a write in, which is merged before anything is sent, or it leaves all documents alone
and binds its sender at most to what it wrote as before. -/
theorem plan_cases (h : Hub) (id : Nat) (m : SyncMessage) :
    (∃ p seq u, h.peer? id = some p ∧ m = .update p.doc seq u ∧ h.Admits p u ∧
      (h.plan id m).hub = h.taken p u) ∨
    h.admitted? (.handle id m) = none ∧ ((h.plan id m).hub = h ∨
      (∃ p r, h.peer? id = some p ∧ (∀ r' ∈ p.replica, r' = r) ∧ (h.plan id m).hub = h.bind id r) ∨
      ∃ awareness, (h.plan id m).hub = { h with awareness }) := by
  unfold plan
  cases hp : h.peer? id with
  | none =>
    refine .inr ⟨?_, .inl rfl⟩
    cases m <;> simp [admitted?, hp]
  | some p =>
    obtain ⟨-, rfl⟩ := peer?_eq_some hp
    dsimp only
    split
    · next hother =>
      refine .inr ⟨?_, .inl rfl⟩
      cases m with
      | update d seq u =>
        have hne : d ≠ p.doc := by simpa [SyncMessage.doc?] using hother
        simp [admitted?, hp, hne]
      | _ => rfl
    · next hown =>
      cases m with
      | update d seq u =>
        obtain rfl : d = p.doc := by simpa [SyncMessage.doc?] using hown
        by_cases a : h.Admits p u
        · refine .inl ⟨p, seq, u, rfl, rfl, a, ?_⟩
          dsimp only
          rw [updatePlan_of_admits a]
        · refine .inr ⟨admitted?_of_not_admits hp a _ seq, ?_⟩
          obtain ⟨r, g, hg, he⟩ := updatePlan_of_not_admits a seq
          dsimp only
          rw [he]
          rcases hg with rfl | ⟨rfl, hown⟩
          · exact .inl rfl
          · exact .inr (.inl ⟨p, u.clock.replica, rfl, hown, rfl⟩)
      | awareness d c state => exact .inr ⟨rfl, .inr (.inr ⟨_, rfl⟩)⟩
      | _ => exact .inr ⟨rfl, .inl rfl⟩

/-! ### What an event does to documents -/

theorem replica_plan (h : Hub) (id : Nat) (m : SyncMessage) (doc : String) :
    (h.plan id m).hub.replica doc =
      (h.replica doc).mergeAll (writesOn doc (h.admitted? (.handle id m)).toList) := by
  rcases plan_cases h id m with ⟨p, seq, u, hp, rfl, a, he⟩ | ⟨hnone, he⟩
  · rw [admitted?_handle hp a, he]
    by_cases hd : doc = p.doc
    · subst hd
      rw [replica_taken]
      simp [writesOn, Document.mergeAll]
    · rw [replica, room_taken, if_neg hd]
      simp [writesOn, Document.mergeAll, Ne.symm hd, replica]
  · rw [hnone]
    rcases he with he | ⟨p, r, -, -, he⟩ | ⟨awareness, he⟩ <;> rw [he] <;> rfl

theorem Performs.replica (a : Performs h e full h') (doc : String) :
    h'.replica doc = (h.replica doc).mergeAll (writesOn doc (h.admitted? e).toList) := by
  cases a with
  | connected hc =>
    unfold Hub.replica
    rw [room_connect hc]
    split
    · next he =>
      rw [he]
      rfl
    · rfl
  | @handled h₁ _ id m _ _ d d' =>
    rw [Hub.replica, d'.sends.document, d.sends.document, ← Hub.replica, replica_plan]
  | @disconnected _ id _ d =>
    rw [Hub.replica, d.sends.document, (sends_dropped h id).1.document]
    rfl
  | read ht =>
    obtain ⟨r, -, rfl⟩ := takeNext_eq_some ht
    rfl
  | _ => rfl

theorem Performs.policy (a : Performs h e full h') : h'.policy = h.policy := by
  cases a with
  | connected hc =>
    rw [(connect_eq_ok hc).2]
    rfl
  | @handled h₁ _ id m _ _ d d' =>
    rw [d'.sends.policy, d.sends.policy]
    rcases plan_cases h id m with ⟨p, seq, u, -, -, -, he⟩ | ⟨-, he | ⟨p, r, -, -, he⟩ | ⟨awareness, he⟩⟩ <;>
      rw [he] <;> rfl
  | @disconnected _ id _ d => rw [d.sends.policy, (sends_dropped h id).1.policy]
  | read ht =>
    obtain ⟨r, -, rfl⟩ := takeNext_eq_some ht
    rfl
  | _ => rfl

/-! ### What an event does to connections -/

theorem replica_of_peer?_bind {q : Peer} {r : String} (hq : (h.bind id r).peer? i = some q) :
    ∃ p, h.peer? i = some p ∧ q.replica = if i = id then some r else p.replica := by
  rw [peer?_bind] at hq
  obtain ⟨p, hp, rfl⟩ := Option.map_eq_some_iff.1 hq
  refine ⟨p, hp, ?_⟩
  obtain ⟨-, rfl⟩ := peer?_eq_some hp
  by_cases hi : p.id = id <;> simp [hi]

/-- Whoever has written as a replica goes on writing as that one. -/
theorem bound_plan {q : Peer} (hq : (h.plan id m).hub.peer? i = some q) :
    ∃ p, h.peer? i = some p ∧ ∀ r ∈ p.replica, q.replica = some r := by
  have hbind : ∀ (p : Peer) (r : String), h.peer? id = some p → (∀ r' ∈ p.replica, r' = r) →
      (h.bind id r).peer? i = some q → ∃ p, h.peer? i = some p ∧ ∀ r ∈ p.replica, q.replica = some r := by
    intro p r hp hown hq
    obtain ⟨p', hp', he⟩ := replica_of_peer?_bind hq
    refine ⟨p', hp', fun r' hr' => ?_⟩
    rw [he]
    split
    · next hi =>
      subst hi
      cases hp.symm.trans hp'
      rw [hown r' hr']
    · exact hr'
  rcases plan_cases h id m with ⟨p, seq, u, hp, -, a, he⟩ | ⟨-, he | ⟨p, r, hp, hown, he⟩ | ⟨awareness, he⟩⟩ <;>
    rw [he] at hq
  · obtain ⟨-, rfl⟩ := peer?_eq_some hp
    exact hbind p u.clock.replica hp a.own hq
  · exact ⟨q, hq, fun r hr => hr⟩
  · exact hbind p r hp hown hq
  · exact ⟨q, hq, fun r hr => hr⟩

theorem Performs.bound (a : Performs h e full h') (hs : h.Consistent) (hi : i < h.nextPeer) {q : Peer}
    (hq : h'.peer? i = some q) : ∃ p, h.peer? i = some p ∧ ∀ r ∈ p.replica, q.replica = some r := by
  have hsame : ∀ {q : Peer}, h.peer? i = some q → ∃ p, h.peer? i = some p ∧ ∀ r ∈ p.replica, q.replica = some r :=
    fun hq => ⟨_, hq, fun _ hr => hr⟩
  cases a with
  | connected hc =>
    have hne : i ≠ _ := fun he => absurd ((connect_eq_ok hc).1 ▸ he ▸ hi) (lt_irrefl _)
    rw [peer?_connect hs.toOrderly hc, if_neg hne] at hq
    exact hsame hq
  | @handled h₁ _ id m _ _ d d' =>
    have ho := (hs.plan id m).toOrderly
    exact bound_plan (d.sends.peer?_eq ho (d'.sends.peer?_eq (d.sends.orderly ho) hq))
  | @disconnected _ id _ d =>
    have hdropped := (sends_dropped h id).1
    exact hsame (hdropped.peer?_eq hs.toOrderly (d.sends.peer?_eq (hdropped.orderly hs.toOrderly) hq))
  | read ht =>
    obtain ⟨r, -, rfl⟩ := takeNext_eq_some ht
    exact hsame hq
  | _ => exact hsame hq

/-- A write that is let in is its peer's, as which it writes from then on. -/
theorem admitted?_eq_some {a : Admission} (ha : h.admitted? e = some a) :
    ∃ p seq, h.peer? a.peer = some p ∧ e = .handle p.id (.update p.doc seq a.write) ∧ a.peer = p.id ∧
      a.doc = p.doc ∧ h.Admits p a.write := by
  unfold admitted? at ha
  split at ha
  · next id doc seq u =>
    obtain ⟨p, hp, ha⟩ := Option.bind_eq_some_iff.1 ha
    split at ha
    · next hin =>
      cases ha
      obtain ⟨-, rfl⟩ := peer?_eq_some hp
      obtain ⟨rfl, hverdict⟩ := hin
      exact ⟨p, seq, hp, rfl, rfl, rfl, (verdict_eq_none_iff h p u).1 (Option.isNone_iff_eq_none.1 hverdict)⟩
    · cases ha
  · cases ha

theorem Performs.bound_of_admitted (a : Performs h e full h') (hs : h.Consistent) {x : Admission}
    (hx : h.admitted? e = some x) {q : Peer} (hq : h'.peer? x.peer = some q) :
    q.replica = some x.write.clock.replica := by
  obtain ⟨p, seq, hp, rfl, he, -, hadmits⟩ := admitted?_eq_some hx
  rw [he] at hp hq
  cases a with
  | @handled h₁ _ id m _ _ d d' =>
    have ho := (hs.plan p.id (.update p.doc seq x.write)).toOrderly
    have hq := d.sends.peer?_eq ho (d'.sends.peer?_eq (d.sends.orderly ho) hq)
    have hplan : (h.plan p.id (.update p.doc seq x.write)).hub = h.taken p x.write := by
      simp [plan, hp, SyncMessage.doc?, updatePlan_of_admits hadmits]
    rw [hplan] at hq
    obtain ⟨_, -, hbound⟩ := replica_of_peer?_bind (h := h) hq
    rw [hbound, if_pos rfl]

/-! ### What is not let in -/

/-- Messages of a peer that are not taken. -/
inductive Rejects (h : Hub) (p : Peer) : SyncMessage → Prop
  | otherDocument {m : SyncMessage} {doc : String} : m.doc? = some doc → doc ≠ p.doc → Rejects h p m
  | syncState (doc : String) (updates : List FieldUpdate) : Rejects h p (.syncState doc updates)
  | ack (doc : String) (seq : Nat) : Rejects h p (.ack doc seq)
  | error (code msg : String) : Rejects h p (.error code msg)
  | update {u : FieldUpdate} (doc : String) (seq : Nat) : ¬ h.Admits p u → Rejects h p (.update doc seq u)

/-- A peer is told why its message is not taken. A write of its own document is acknowledged as well. -/
def answers (p : Peer) (m : SyncMessage) (r : Refusal) : List SyncMessage :=
  r.toMessage :: match m with
    | .update doc seq _ => if doc = p.doc then [.ack doc seq] else []
    | _ => []

/-- The second relay comes from the first by what concerns one connection alone: as whom it writes and what it
is sent. -/
structure Spares (id : Nat) (h h' : Hub) : Prop where
  rooms : h'.rooms = h.rooms
  awareness : h'.awareness = h.awareness
  mailboxes : ∀ i, i ≠ id → h'.mailbox? i = h.mailbox? i
  peers : ∀ i, i ≠ id → h'.peer? i = h.peer? i
  connected : (h'.peer? id).isSome = (h.peer? id).isSome

theorem Spares.refl (id : Nat) (h : Hub) : Spares id h h :=
  ⟨rfl, rfl, fun _ _ => rfl, fun _ _ => rfl, rfl⟩

theorem Spares.trans {g : Hub} (a : Spares id h g) (b : Spares id g h') : Spares id h h' where
  rooms := b.rooms.trans a.rooms
  awareness := b.awareness.trans a.awareness
  mailboxes i hi := (b.mailboxes i hi).trans (a.mailboxes i hi)
  peers i hi := (b.peers i hi).trans (a.peers i hi)
  connected := b.connected.trans a.connected

theorem spares_bind (h : Hub) (id : Nat) (r : String) : Spares id h (h.bind id r) := by
  refine ⟨rfl, rfl, fun _ _ => rfl, fun i hi => ?_, ?_⟩
  · rw [peer?_bind]
    cases hp : h.peer? i with
    | none => rfl
    | some p =>
      obtain ⟨-, rfl⟩ := peer?_eq_some hp
      simp [hi]
  · rw [peer?_bind, Option.isSome_map]

theorem spares_queued (h : Hub) (id : Nat) (m : SyncMessage) : Spares id h (h.queued id m) := by
  refine ⟨rfl, rfl, fun i hi => ?_, fun _ _ => rfl, rfl⟩
  have hf : ∀ b : Mailbox, ({ b with queue := b.queue ++ [m] } : Mailbox).owner = b.owner := fun _ => rfl
  exact (mailbox?_updateMailbox h id i _ hf).trans (if_neg hi)

theorem enqueue_of_closed (hc : h.isClosed id = true) (m : SyncMessage) : h.enqueue id m = (false, h) := by
  unfold enqueue
  split
  · next p b hp hb =>
    have hr : b.isRead = false := by simpa [isClosed, hp, hb] using hc
    simp [hr]
  · rfl

/-- Answers that there is room for end no connection. -/
theorem sendEach_own (replies : List SyncMessage) (hroom : (h.mail id).length + replies.length ≤ Mailbox.capacity) :
    Spares id h (h.sendEach (replies.map (id, ·))) ∧
      (h.isClosed id = false → (h.sendEach (replies.map (id, ·))).mail id = h.mail id ++ replies) := by
  induction replies generalizing h with
  | nil => exact ⟨.refl id h, fun _ => (List.append_nil _).symm⟩
  | cons m replies ih =>
    rw [List.length_cons] at hroom
    rw [List.map_cons, sendEach, List.foldl_cons, ← sendEach]
    cases hc : h.isClosed id with
    | true =>
      have hsend : h.send id m = h := by simp [send, sendOr, enqueue_of_closed hc]
      rw [hsend]
      refine ⟨(ih (by omega)).1, fun hopen => ?_⟩
      cases hopen
    | false =>
      have hsend : h.send id m = h.queued id m := by simp [send, sendOr, enqueue_of_room hc (by omega)]
      have hmail : (h.queued id m).mail id = h.mail id ++ [m] := by rw [mail_queued hc, if_pos rfl]
      obtain ⟨hspares, hrest⟩ := ih (h := h.queued id m) (by
        rw [hmail, List.length_append, List.length_singleton]
        omega)
      rw [hsend]
      refine ⟨(spares_queued h id m).trans hspares, fun _ => ?_⟩
      rw [hrest ((isClosed_queued h id m id).trans hc), hmail, List.append_assoc]
      rfl

theorem plan_of_rejects (hp : h.peer? p.id = some p) (hm : h.Rejects p m) :
    ∃ (r : Refusal) (g : Hub), (g = h ∨ ∃ name, g = h.bind p.id name) ∧
      h.plan p.id m = { hub := g, first := (answers p m r).map (p.id, ·) } := by
  have hother : ∀ {m : SyncMessage}, m.doc?.any (· != p.doc) = true →
      ∃ (r : Refusal) (g : Hub), (g = h ∨ ∃ name, g = h.bind p.id name) ∧
        h.plan p.id m = { hub := g, first := (answers p m r).map (p.id, ·) } := by
    intro m hd
    refine ⟨.otherDocument, h, .inl rfl, ?_⟩
    cases m with
    | update doc seq u =>
      have hne : doc ≠ p.doc := by simpa [SyncMessage.doc?] using hd
      simp [plan, hp, hd, answers, hne]
    | _ => simp [plan, hp, hd, answers]
  by_cases hd : m.doc?.any (· != p.doc) = true
  · exact hother hd
  · cases hm with
    | otherDocument hdoc hne => exact absurd (by simp [hdoc, hne]) hd
    | @update u doc seq a =>
      obtain rfl : doc = p.doc := by simpa [SyncMessage.doc?] using hd
      obtain ⟨r, g, hg, he⟩ := updatePlan_of_not_admits a seq
      refine ⟨r, g, hg.imp_right fun hg => ⟨_, hg.1⟩, ?_⟩
      simp [plan, hp, SyncMessage.doc?, answers, he]
    | _ => exact ⟨.unexpectedKind, h, .inl rfl, by simp [plan, hp, hd, answers]⟩

/-- A message that is not taken costs its sender the answer, and nobody anything else. -/
theorem handle_of_rejects (hp : h.peer? p.id = some p) (hm : h.Rejects p m)
    (hroom : ∀ r, (h.mail p.id).length + (answers p m r).length ≤ Mailbox.capacity) :
    Spares p.id h (h.handle p.id m) ∧
      (h.isClosed p.id = false → ∃ r, (h.handle p.id m).mail p.id = h.mail p.id ++ answers p m r) := by
  obtain ⟨r, g, hg, he⟩ := plan_of_rejects hp hm
  have hrun : h.handle p.id m = g.sendEach ((answers p m r).map (p.id, ·)) := by
    rw [handle_eq_plan, he]
    rfl
  rw [hrun]
  rcases hg with rfl | ⟨name, rfl⟩
  · obtain ⟨hspares, hmail⟩ := sendEach_own _ (hroom r)
    exact ⟨hspares, fun hopen => ⟨r, hmail hopen⟩⟩
  · obtain ⟨hspares, hmail⟩ := sendEach_own (h := h.bind p.id name) _ (hroom r)
    refine ⟨(spares_bind h p.id name).trans hspares, fun hopen => ⟨r, hmail ?_⟩⟩
    rw [isClosed_bind, hopen]

end Hub

namespace History

variable {policy : SecurityPolicy} {t : History} {admitted : List Hub.Admission}

/-- Writes that events bring in, in order. -/
def admissions (t : History) : List Event → List Hub.Admission
  | [] => []
  | e :: events => (t.hub.admitted? e).toList ++ (t.next e).admissions events

theorem admissions_concat (t : History) (events : List Event) (e : Event) :
    t.admissions (events ++ [e]) = t.admissions events ++ ((events.foldl next t).hub.admitted? e).toList := by
  induction events generalizing t with
  | nil => simp [admissions]
  | cons x events ih => simp [admissions, ih]

/-- Documents are made of the writes that were let in, and connections are bound by them. -/
structure Accounted (policy : SecurityPolicy) (admitted : List Hub.Admission) (t : History) : Prop where
  unchanged : t.hub.policy = policy
  replica : ∀ doc, t.hub.replica doc =
    ({ replica := relayReplica } : Document).mergeAll (Hub.writesOn doc admitted)
  fit : ∀ a ∈ admitted, policy.isOutputField a.write.field = true ∧ a.write.clock.replica ≠ "" ∧
    a.write.clock.replica ≠ relayReplica
  known : ∀ a ∈ admitted, a.peer < t.hub.nextPeer
  bound : ∀ a ∈ admitted, ∀ p, t.hub.peer? a.peer = some p → p.replica = some a.write.clock.replica
  single : ∀ a ∈ admitted, ∀ b ∈ admitted, a.peer = b.peer → a.write.clock.replica = b.write.clock.replica

theorem Accounted.start (policy : SecurityPolicy) : Accounted policy [] { hub := { policy } } where
  unchanged := rfl
  replica _ := rfl
  fit _ ha := absurd ha List.not_mem_nil
  known _ ha := absurd ha List.not_mem_nil
  bound _ ha := absurd ha List.not_mem_nil
  single _ ha := absurd ha List.not_mem_nil

theorem Accounted.next (s : t.Accounted policy admitted) (hs : t.hub.Consistent) (e : Event) :
    (t.next e).Accounted policy (admitted ++ (t.hub.admitted? e).toList) := by
  obtain ⟨full, a⟩ := Hub.performs_next t e
  -- A new write is from a peer that was bound by its earlier ones.
  have hnew : ∀ x, t.hub.admitted? e = some x → ∃ p, t.hub.peer? x.peer = some p ∧ t.hub.Admits p x.write := by
    intro x hx
    obtain ⟨p, -, hp, -, -, -, hadmits⟩ := Hub.admitted?_eq_some hx
    exact ⟨p, hp, hadmits⟩
  have hagree : ∀ x, t.hub.admitted? e = some x → ∀ y ∈ admitted, y.peer = x.peer →
      y.write.clock.replica = x.write.clock.replica := by
    intro x hx y hy he
    obtain ⟨p, hp, hadmits⟩ := hnew x hx
    exact hadmits.own _ (s.bound y hy p (he ▸ hp))
  refine ⟨a.policy.trans s.unchanged, fun doc => ?_, fun x hx => ?_, fun x hx => ?_, fun x hx q hq => ?_,
    fun x hx y hy he => ?_⟩
  · rw [a.replica, s.replica]
    simp [Hub.writesOn, Document.mergeAll]
  · rcases List.mem_append.1 hx with hx | hx
    · exact s.fit x hx
    · obtain ⟨p, -, hadmits⟩ := hnew x (Option.mem_toList.1 hx)
      exact ⟨s.unchanged ▸ hadmits.writable, hadmits.named⟩
  · refine lt_of_lt_of_le ?_ a.nextPeer_le
    rcases List.mem_append.1 hx with hx | hx
    · exact s.known x hx
    · obtain ⟨p, hp, -⟩ := hnew x (Option.mem_toList.1 hx)
      obtain ⟨hmem, he⟩ := Hub.peer?_eq_some hp
      exact he ▸ hs.peerIds p hmem
  · rcases List.mem_append.1 hx with hx | hx
    · obtain ⟨p, hp, hkept⟩ := a.bound hs (s.known x hx) hq
      exact hkept _ (s.bound x hx p hp)
    · exact a.bound_of_admitted hs (Option.mem_toList.1 hx) hq
  · rcases List.mem_append.1 hx with hx | hx <;> rcases List.mem_append.1 hy with hy | hy
    · exact s.single x hx y hy he
    · exact hagree y (Option.mem_toList.1 hy) x hx he
    · exact (hagree x (Option.mem_toList.1 hx) y hy he.symm).symm
    · cases (Option.mem_toList.1 hx).symm.trans (Option.mem_toList.1 hy)
      rfl

theorem accounted_after (policy : SecurityPolicy) (events : List Event) :
    (after policy events).Accounted policy ((after policy []).admissions events) := by
  induction events using List.reverseRecOn with
  | nil => exact .start policy
  | append_singleton events e ih =>
    rw [admissions_concat, after_concat]
    exact ih.next (consistent_after policy events) e

/-- Whatever anybody sends to a relay, its replica of a document is the merge of the writes that were let in to that
document. So every entry is of a field of the output that the policy names, and was written under an id that is
neither blank nor the relay's own; and all writes that were merged from one connection are of one replica. A message
that is not taken, being for another document, of a kind that peers do not send, or a write that may not be let in,
changes no document and no presence and reaches nobody but its sender, if the sender's queue has room for the
answer. -/
theorem only_admitted_writes_merge (policy : SecurityPolicy) (events : List Event) :
    let t := after policy events
    let admitted := (after policy []).admissions events
    (∀ doc, t.hub.replica doc =
      ({ replica := relayReplica } : Document).mergeAll (Hub.writesOn doc admitted)) ∧
    (∀ doc, ∀ e ∈ (t.hub.replica doc).entries, e.2.field = e.1 ∧
      policy.validateExpression ("output." ++ e.1) = true ∧
      e.2.clock.replica ≠ "" ∧ e.2.clock.replica ≠ relayReplica) ∧
    (∀ a ∈ admitted, ∀ b ∈ admitted, a.peer = b.peer → a.write.clock.replica = b.write.clock.replica) ∧
    ∀ p m, t.hub.peer? p.id = some p → t.hub.Rejects p m →
      (∀ r, (t.hub.mail p.id).length + (Hub.answers p m r).length ≤ Mailbox.capacity) →
      Hub.Spares p.id t.hub (t.hub.handle p.id m) ∧
        (t.hub.isClosed p.id = false →
          ∃ r, (t.hub.handle p.id m).mail p.id = t.hub.mail p.id ++ Hub.answers p m r) := by
  intro t admitted
  have s := accounted_after policy events
  refine ⟨s.replica, fun doc e he => ?_, s.single, fun p m hp hm hroom => Hub.handle_of_rejects hp hm hroom⟩
  have hfresh := (Document.Reachable.new relayReplica).wellFormed
  rw [s.replica] at he
  have hfield := (hfresh.mergeAll _).own e he
  rcases Document.mem_snapshot_mergeAll hfresh (List.mem_map_of_mem he) with hnone | hwrite
  · exact absurd hnone List.not_mem_nil
  · obtain ⟨a, ha, hwrite⟩ := List.mem_map.1 hwrite
    have hfit := s.fit a (List.mem_filter.1 ha).1
    rw [hwrite, hfield] at hfit
    exact ⟨hfield, hfit⟩

/-- Mallory has written under a name. -/
def oneName : History :=
  after ⟨⟨none⟩, ⟨["output"]⟩, .empty, 10, 1000⟩
    [.connect "d" "mallory", .handle 1 (.update "d" 1 ⟨"score", .null, ⟨5, "m-1"⟩⟩)]

/-- She then writes under another one. -/
theorem only_admitted_writes_merge_names :
    (oneName.hub.replica "d").snapshot = [⟨"score", .null, ⟨5, "m-1"⟩⟩] ∧
      oneName.hub.peer? 1 = some ⟨1, "d", "mallory", some "m-1"⟩ ∧
      Hub.Spares 1 oneName.hub (oneName.hub.handle 1 (.update "d" 2 ⟨"score", .null, ⟨9, "alice"⟩⟩)) := by
  have hadmits : ¬ oneName.hub.Admits ⟨1, "d", "mallory", some "m-1"⟩ ⟨"score", .null, ⟨9, "alice"⟩⟩ :=
    fun a => absurd (a.own "m-1" rfl) (by decide)
  obtain ⟨-, -, -, hrejected⟩ := only_admitted_writes_merge ⟨⟨none⟩, ⟨["output"]⟩, .empty, 10, 1000⟩
    [.connect "d" "mallory", .handle 1 (.update "d" 1 ⟨"score", .null, ⟨5, "m-1"⟩⟩)]
  have hp : oneName.hub.peer? 1 = some ⟨1, "d", "mallory", some "m-1"⟩ := rfl
  have hroom : (oneName.hub.mail 1).length + 2 ≤ Mailbox.capacity := by decide
  obtain ⟨hspares, -⟩ := hrejected ⟨1, "d", "mallory", some "m-1"⟩ _ hp (.update "d" 2 hadmits) fun r => hroom
  exact ⟨rfl, hp, hspares⟩

end History

end SecureLayout.Collab
