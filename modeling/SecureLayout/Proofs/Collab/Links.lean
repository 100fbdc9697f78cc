import SecureLayout.Collab.Network
import SecureLayout.Proofs.Collab.Relaying

/-!
Links that honest replicas send over. Main statement: the relay never refuses what is sent first over
such a link, and once it has handled it the rest of the link is as good as before.
-/

namespace SecureLayout.Collab

open Json (Value)
open Wire (Clock FieldUpdate SyncMessage)

/-- Writes that a message carries. -/
def updatesIn : SyncMessage → List FieldUpdate
  | .update _ _ u => [u]
  | .syncState _ us => us
  | _ => []

/-- Counters of the writes that messages carry. -/
def counters (ms : List SyncMessage) : List Nat :=
  (ms.flatMap updatesIn).map (·.clock.counter)

/-- All local writes so far: clocks tell them apart, and nothing about them is refused. -/
structure Honest (policy : SecurityPolicy) (writes : List FieldUpdate) : Prop where
  unique : ∀ u ∈ writes, ∀ v ∈ writes, u.clock = v.clock → u = v
  permitted : ∀ u ∈ writes, policy.isOutputField u.field = true
  named : ∀ u ∈ writes, u.clock.replica ≠ "" ∧ u.clock.replica ≠ relayReplica
  counted : ∀ u ∈ writes, u.clock.counter ≤ Clock.greatestCounter

/-- What a replica sends about a document: its own writes, itself and its presence. -/
def SentBy (doc : String) (writes : List FieldUpdate) (r : String) : SyncMessage → Prop
  | .hello d _ => d = doc
  | .awareness d _ _ => d = doc
  | .update d _ u => d = doc ∧ u ∈ writes ∧ u.clock.replica = r
  | _ => False

/-- Messages of one replica on their way to one peer of the relay, whose turn to write will come. -/
structure Outbox (doc : String) (writes : List FieldUpdate) (h : Hub) (r : String) (id : Nat)
    (out : List SyncMessage) : Prop where
  used : id < h.nextPeer
  sent : ∀ m ∈ out, SentBy doc writes r m
  bound : ∀ p, h.peer? id = some p → p.doc = doc ∧ ∀ r' ∈ p.replica, r' = r
  inStep : ∀ p, h.peer? id = some p → InStep (h.replica doc).clock (counters out)

/-- The relay after a message of a peer, as the others and as the peer itself see it. -/
structure Answered (doc : String) (m : SyncMessage) (id : Nat) (h h' : Hub) : Prop where
  sound : h'.Sound
  beside : Hub.Beside doc (updatesIn m) (· ≠ id) h h'
  peer : ∀ p', h'.peer? id = some p' → ∃ p, h.peer? id = some p ∧ p'.doc = p.doc ∧
    ∀ r ∈ p'.replica, r ∈ p.replica ∨ ∃ u ∈ updatesIn m, r = u.clock.replica
  mail : ∃ ms, h'.mail id = h.mail id ++ ms ∧ ∀ x ∈ ms, Hub.IsPresence x ∨
    (∃ d q u, m = .update d q u ∧ x = .ack doc q) ∨ x = .syncState doc (h.replica doc).snapshot
  welcomed : ∀ d c, m = .hello d c → ∀ p', h'.peer? id = some p' →
    .syncState doc (h.replica doc).snapshot ∈ h'.mail id

variable {doc : String} {writes : List FieldUpdate} {h h' : Hub} {r : String} {id : Nat}
  {m : SyncMessage} {out : List SyncMessage}

theorem counters_cons (m : SyncMessage) (out : List SyncMessage) :
    counters (m :: out) = (updatesIn m).map (·.clock.counter) ++ counters out := by
  simp [counters]

/-! ### What the relay does not refuse -/

theorem clockRefusal?_eq_none {p : Peer} {c : Clock} (hr : c.replica ≠ "" ∧ c.replica ≠ relayReplica)
    (hc : c.counter ≤ Clock.greatestCounter) (hl : c.counter ≤ (h.replica p.doc).clock + 1)
    (hb : ∀ r' ∈ p.replica, r' = c.replica) : h.clockRefusal? p c = none := by
  have hlead : (h.replica p.doc).clock + 1 ≤ (h.room p.doc).document.clock + greatestLead :=
    Nat.add_le_add_left (by decide) _
  have hempty : c.replica.isEmpty = false := by simpa using hr.1
  have hbound : p.replica.any (· != c.replica) = false := by
    cases hp : p.replica with
    | none => rfl
    | some r' => simp [hb r' hp]
  unfold Hub.clockRefusal?
  rw [if_neg (by simp [hempty, hr.2]), if_neg (by omega), if_neg (by simp [hbound])]

/-- The first write on a link that is still connected is in order. -/
theorem Outbox.clockRefusal? {d : String} {q : Nat} {u : FieldUpdate}
    (ho : Outbox doc writes h r id (.update d q u :: out)) (hh : Honest h.policy writes) {p : Peer}
    (hp : h.peer? id = some p) : h.clockRefusal? p u.clock = none := by
  obtain ⟨-, hu, rfl⟩ := ho.sent _ (List.mem_cons_self ..)
  obtain ⟨hd, hb⟩ := ho.bound p hp
  have hstep := (ho.inStep p hp).1
  exact clockRefusal?_eq_none (hh.named u hu) (hh.counted u hu) (hd ▸ hstep) hb

theorem handle_of_peer? {p : Peer} (hp : h.peer? id = some p) (hd : p.doc = doc)
    (hm : SentBy doc writes r m) :
    h.handle id m = match m with
      | .hello _ _ => h.welcome p
      | .update _ seq u => h.receiveUpdate p seq u
      | .awareness _ _ state => h.receiveAwareness p state
      | _ => h := by
  unfold Hub.handle
  rw [hp]
  cases m with
  | hello d c => simp [SyncMessage.doc?, hd, (show d = doc from hm)]
  | update d q u => simp [SyncMessage.doc?, hd, hm.1]
  | awareness d c s => simp [SyncMessage.doc?, hd, (show d = doc from hm)]
  | syncState d us => exact hm.elim
  | ack d q => exact hm.elim
  | error c t => exact hm.elim

/-- The relay takes what an honest replica sent first. -/
theorem Outbox.answered (hs : h.Sound) (hh : Honest h.policy writes)
    (ho : Outbox doc writes h r id (m :: out)) {p : Peer} (hp : h.peer? id = some p) :
    Answered doc m id h (h.handle id m) := by
  have hm := ho.sent m (List.mem_cons_self ..)
  obtain ⟨hd, -⟩ := ho.bound p hp
  obtain ⟨-, hid⟩ := Hub.peer?_eq_some hp
  rw [handle_of_peer? hp hd hm]
  cases m with
  | hello d c =>
    have hw := Hub.sends_welcome h p
    have hb : Hub.Beside doc [] (· ≠ id) h (h.welcome p) := by
      refine ⟨hw.policy, le_of_eq hw.nextPeer.symm, hw.document doc,
        fun i _ q hq => hw.peer?_eq hs.toOrderly hq, fun i hi => ?_,
        fun i _ q _ _ u hu => absurd hu List.not_mem_nil⟩
      obtain ⟨ms, he, ha⟩ := hw.mail i
      refine ⟨ms, he, fun x hx => .inl ((ha x hx).resolve_right fun hx => hi (hx.1.trans hid))⟩
    refine ⟨hw.sound hs, hb, fun q hq => ⟨q, hw.peer?_eq hs.toOrderly hq, rfl, fun r hr => .inl hr⟩, ?_,
      fun _ _ _ q hq => ?_⟩
    · obtain ⟨ms, he, ha⟩ := hw.mail id
      exact ⟨ms, he, fun x hx => (ha x hx).imp_right fun hx => .inr (hd ▸ hx.2)⟩
    · have hmem := Hub.mem_mail_welcome hs (hid ▸ hq)
      rwa [hid, hd] at hmem
  | update d q u =>
    have hu : u ∈ writes := hm.2.1
    have hc := ho.clockRefusal? hh hp
    have hs' := hs.taken p u
    have hsends := Hub.sends_acceptUpdate h p q u
    have he : h.receiveUpdate p q u = (h.bind p.id u.clock.replica).acceptUpdate p q u := by
      unfold Hub.receiveUpdate
      rw [hc]
      have hf : (h.bind p.id u.clock.replica).policy.isOutputField u.field = true :=
        hh.permitted u hu
      simp only [hf, if_true]
    dsimp only
    rw [he]
    refine ⟨hsends.sound hs', hd ▸ hid ▸ Hub.beside_acceptUpdate hs p q u, fun p' hp' => ?_, ?_,
      fun _ _ hne => nomatch hne⟩
    · have hp'' : (h.bind p.id u.clock.replica).peer? id = some p' := hsends.peer?_eq hs'.toOrderly hp'
      rw [Hub.peer?_bind, hp] at hp''
      have hbeq : (p.id == p.id) = true := by simp
      simp only [Option.map_some, hbeq, if_true, Option.some.injEq] at hp''
      subst hp''
      refine ⟨p, hp, rfl, fun r' hr' => .inr ⟨u, List.mem_singleton_self u, ?_⟩⟩
      cases hr'
      rfl
    · obtain ⟨ms, hmail, ha⟩ := hsends.mail id
      refine ⟨ms, hmail, fun x hx => ?_⟩
      rcases ha x hx with h1 | ⟨-, h2⟩ | ⟨h3, -⟩
      · exact .inl h1
      · exact .inr (.inl ⟨d, q, u, rfl, hd ▸ h2⟩)
      · exact absurd hid.symm h3
  | awareness d c s =>
    have hw := Hub.sends_receiveAwareness h p s
    refine ⟨hw.sound hs, hw.beside hs doc _, fun q hq => ⟨q, hw.peer?_eq hs.toOrderly hq, rfl, fun r hr => .inl hr⟩,
      ?_, fun _ _ hne => nomatch hne⟩
    obtain ⟨ms, he, ha⟩ := hw.mail id
    exact ⟨ms, he, fun x hx => .inl (ha x hx)⟩
  | syncState d us => exact hm.elim
  | ack d q => exact hm.elim
  | error c t => exact hm.elim

theorem handle_of_peer?_eq_none (hp : h.peer? id = none) (m : SyncMessage) : h.handle id m = h := by
  unfold Hub.handle
  rw [hp]

/-! ### Links go on being in order -/

theorem Hub.Beside.took {us : List FieldUpdate} {watch : Nat → Prop}
    (b : Hub.Beside doc us watch h h') {u : FieldUpdate} (hu : (h.replica doc).Took u) :
    (h'.replica doc).Took u := by
  rw [b.replica]
  exact hu.mergeAll us

theorem Hub.Beside.clock_le {us : List FieldUpdate} {watch : Nat → Prop}
    (b : Hub.Beside doc us watch h h') : (h.replica doc).clock ≤ (h'.replica doc).clock := by
  rw [b.replica]
  exact Document.clock_le_mergeAll _ us

theorem Outbox.beside (ho : Outbox doc writes h r id out) {us : List FieldUpdate}
    {watch : Nat → Prop} (b : Hub.Beside doc us watch h h') (hw : watch id) :
    Outbox doc writes h' r id out where
  used := lt_of_lt_of_le ho.used b.nextPeer
  sent := ho.sent
  bound p hp := ho.bound p (b.peer id hw p hp)
  inStep p hp := (ho.inStep p (b.peer id hw p hp)).mono b.clock_le

theorem SentBy.mono {vs : List FieldUpdate} (hm : SentBy doc writes r m) (hsub : writes ⊆ vs) :
    SentBy doc vs r m := by
  cases m with
  | update d q u => exact ⟨hm.1, hsub hm.2.1, hm.2.2⟩
  | _ => exact hm

theorem Outbox.mono {vs : List FieldUpdate} (ho : Outbox doc writes h r id out)
    (hsub : writes ⊆ vs) : Outbox doc vs h r id out :=
  ⟨ho.used, fun m hm => (ho.sent m hm).mono hsub, ho.bound, ho.inStep⟩

/-- The rest of a link after its first message was answered. -/
theorem Outbox.tail (ho : Outbox doc writes h r id (m :: out)) (a : Answered doc m id h h') :
    Outbox doc writes h' r id out where
  used := lt_of_lt_of_le ho.used a.beside.nextPeer
  sent x hx := ho.sent x (List.mem_cons_of_mem _ hx)
  bound p' hp' := by
    obtain ⟨p, hp, hd, hr⟩ := a.peer p' hp'
    obtain ⟨hpd, hpr⟩ := ho.bound p hp
    refine ⟨hd.trans hpd, fun r' hr' => ?_⟩
    rcases hr r' hr' with hold | ⟨u, hu, rfl⟩
    · exact hpr r' hold
    · have hm := ho.sent m (List.mem_cons_self ..)
      cases m with
      | update d q v =>
        cases List.mem_singleton.1 hu
        exact hm.2.2
      | hello d c => exact absurd hu List.not_mem_nil
      | awareness d c s => exact absurd hu List.not_mem_nil
      | _ => exact hm.elim
  inStep p' hp' := by
    obtain ⟨p, hp, -⟩ := a.peer p' hp'
    have hstep := ho.inStep p hp
    have hm := ho.sent m (List.mem_cons_self ..)
    have hclock := a.beside.clock_le
    rw [counters_cons] at hstep
    cases m with
    | update d q u =>
      refine hstep.2.mono (max_le hclock ?_)
      rw [a.beside.replica]
      exact (Document.took_mergeAll (List.mem_singleton_self u)).2
    | hello d c => exact hstep.mono hclock
    | awareness d c s => exact hstep.mono hclock
    | _ => exact hm.elim

/-- A link whose peer is gone stays so. -/
theorem Outbox.tail_of_gone (ho : Outbox doc writes h r id (m :: out)) (hp : h.peer? id = none) :
    Outbox doc writes h r id out where
  used := ho.used
  sent x hx := ho.sent x (List.mem_cons_of_mem _ hx)
  bound p hp' := by rw [hp] at hp'; cases hp'
  inStep p hp' := by rw [hp] at hp'; cases hp'

end SecureLayout.Collab
