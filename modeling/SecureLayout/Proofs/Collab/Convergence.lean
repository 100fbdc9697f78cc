import SecureLayout.Proofs.Collab.Movements

/-!
Replicas that come to rest. Main statement: a replica that is connected, has nothing pending and nothing
on its way holds what the relay holds, and no write that reaches the relay is ever refused for its clock.
-/

namespace SecureLayout.Collab

open Json (Value)
open Wire (Clock FieldUpdate SyncMessage)

/-- A relay without documents, and replicas of one document that are empty and never had a link. -/
structure Network.Start (doc : String) (n : Network) : Prop where
  hub : n.hub = { policy := n.hub.policy }
  leaving : n.leaving = []
  station : ∀ name s, Entries.get? name n.stations = some s → ∃ client replica,
    s = { provider := { doc, client, document := { replica } } } ∧ replica ≠ "" ∧ replica ≠ relayReplica
  distinct : ∀ a b s t, a ≠ b → Entries.get? a n.stations = some s →
    Entries.get? b n.stations = some t → s.provider.document.replica ≠ t.provider.document.replica

/-- The message is the next one to reach the relay from a peer. -/
inductive Network.Arriving (n : Network) (peer : Nat) (m : SyncMessage) : Prop
  | sent {name : String} {s : Station} {p : Provider} (hs : Entries.get? name n.stations = some s)
      (hp : s.peer = some peer) (ht : s.provider.takeNext = some (m, p)) : Arriving n peer m
  | left {r : List SyncMessage} (hl : n.leaving.lookup peer = some (m :: r)) : Arriving n peer m

/-- A connected replica whose writes are acknowledged, with nothing on its way from or to it. -/
structure Station.Quiet (h : Hub) (s : Station) : Prop where
  registered : ∃ id p, s.peer = some id ∧ h.peer? id = some p ∧ h.mail id = []
  acknowledged : s.provider.status.pendingChanges = 0
  outgoing : ∀ l, s.provider.link = some l → l.outgoing = []
  incoming : s.incoming = []

/-! ### The start -/

theorem Faithful.start {doc replica client : String} {d : Document} (hr : replica ≠ "")
    (hrelay : replica ≠ relayReplica) :
    Faithful doc [] d { doc, client, document := { replica } } where
  doc_eq := rfl
  tracking := rfl
  counted := rfl
  wellFormed := (Document.Reachable.new replica).wellFormed
  named := ⟨hr, hrelay⟩
  known _ he := absurd he List.not_mem_nil
  fresh _ hu := absurd hu List.not_mem_nil
  kept _ hu := absurd hu List.not_mem_nil
  reached _ he := absurd he List.not_mem_nil
  pending _ hx := absurd hx List.not_mem_nil
  numbered := List.Pairwise.nil
  inStep := trivial
  top := Nat.zero_le _

namespace Network

variable {doc : String} {n n' : Network}

theorem Start.consistent (h : n.Start doc) : n.Consistent doc [] := by
  have hdocument : n.hub.replica doc = { replica := relayReplica } := by
    rw [h.hub]
    rfl
  have hstation : ∀ name s, Entries.get? name n.stations = some s → s.InOrder doc [] n.hub ∧
      s.peer = none := by
    intro name s hs
    obtain ⟨client, replica, rfl, hr, hrelay⟩ := h.station name s hs
    exact ⟨(Faithful.start hr hrelay).inOrder rfl, rfl⟩
  refine ⟨?_, ⟨?_, ?_, ?_, ?_⟩, ?_, fun e he => ?_, fun name s hs => (hstation name s hs).1,
    fun a b s t hab hs ht => ⟨h.distinct a b s t hab hs ht, fun id hid => ?_⟩, ?_, ?_, ?_⟩
  · rw [h.hub]
    exact ⟨.empty _, fun _ hmem => absurd hmem List.not_mem_nil⟩
  · exact fun _ hu => absurd hu List.not_mem_nil
  · exact fun _ hu => absurd hu List.not_mem_nil
  · exact fun _ hu => absurd hu List.not_mem_nil
  · exact fun _ hu => absurd hu List.not_mem_nil
  · rw [hdocument]
    exact (Document.Reachable.new relayReplica).wellFormed
  · rw [hdocument] at he
    exact absurd he List.not_mem_nil
  · rw [(hstation a s hs).2] at hid
    cases hid
  · rw [h.leaving]
    exact fun _ hl => absurd hl List.not_mem_nil
  · rw [h.leaving]
    exact fun _ hl => absurd hl List.not_mem_nil
  · rw [h.leaving]
    exact List.nodup_nil

/-! ### Replicas at rest -/

theorem Consistent.snapshot_eq {writes : List FieldUpdate} (c : Consistent doc writes n)
    {name : String} {s : Station} (hs : Entries.get? name n.stations = some s)
    (hq : s.Quiet n.hub) : s.provider.document.snapshot = (n.hub.replica doc).snapshot := by
  have hin := c.station name s hs
  have hf := hin.faithful
  obtain ⟨id, p, hid, hp, hmail⟩ := hq.registered
  obtain ⟨out, hlink, ho, x⟩ := hin.linked id hid
  have hout : out = [] := hq.outgoing _ hlink
  have hpending : s.provider.pending = [] := by
    have hcount := hf.counted
    rw [Provider.IsCounted, hq.acknowledged] at hcount
    exact List.eq_nil_of_length_eq_zero hcount.symm
  refine Document.snapshot_eq_of_covers hf.wellFormed c.held
    (fun u hu v hv => c.honest.unique u (hf.known u hu) v (c.known v hv)) (fun u hu => ?_)
    fun v hv => ?_
  · rcases hf.reached u hu with ht | ⟨q, hmem⟩
    · exact ht.1
    · rw [hpending] at hmem
      cases hmem
  · rcases x.complete p hp with ⟨d, client, hhello⟩ | hcomplete
    · rw [hout] at hhello
      cases hhello
    · rcases hcomplete v hv with hk | ⟨m, hm, -⟩
      · exact hk
      · rw [hq.incoming, hmail] at hm
        cases hm

/-- A document that somebody is connected to is open. -/
theorem Consistent.snapshot?_eq {writes : List FieldUpdate} (c : Consistent doc writes n)
    {name : String} {s : Station} (hs : Entries.get? name n.stations = some s)
    (hq : s.Quiet n.hub) : n.hub.snapshot? doc = some (n.hub.replica doc).snapshot := by
  obtain ⟨id, p, hid, hp, -⟩ := hq.registered
  obtain ⟨out, -, ho, -⟩ := (c.station name s hs).linked id hid
  have hmember := (c.sound.member p (Hub.peer?_eq_some hp).1 p.doc).2 rfl
  rw [(ho.bound p hp).1] at hmember
  unfold Hub.room at hmember
  unfold Hub.snapshot? Hub.replica Hub.room
  cases hr : Entries.get? doc n.hub.rooms with
  | none =>
    rw [hr] at hmember
    cases hmember
  | some r => rfl

theorem Consistent.clockRefusal? {writes : List FieldUpdate} (c : Consistent doc writes n)
    {id q : Nat} {d : String} {u : FieldUpdate} {p : Peer}
    (ha : n.Arriving id (.update d q u)) (hp : n.hub.peer? id = some p) :
    n.hub.clockRefusal? p u.clock = none := by
  cases ha with
  | @sent name s p' hs hid ht =>
    obtain ⟨out, hlink, ho, -⟩ := (c.station name s hs).linked id hid
    unfold Provider.takeNext at ht
    rw [hlink] at ht
    cases out with
    | nil => cases ht
    | cons m out =>
      cases ht
      exact ho.clockRefusal? c.honest hp
  | left hl =>
    obtain ⟨r, ho⟩ := c.leaving _ (mem_of_lookup hl)
    exact ho.clockRefusal? c.honest hp

/-- Wherever a run of replicas with names of their own gets to, each of them that is connected, has
nothing pending and nothing on its way holds exactly what the relay holds, and no write that reaches the
relay over a link of its peer is refused for its clock. -/
theorem quiet_replica_agrees (h : n.Start doc) (hrun : Relation.ReflTransGen Step n n') :
    (∀ name s, Entries.get? name n'.stations = some s → s.Quiet n'.hub →
      n'.hub.snapshot? doc = some s.provider.document.snapshot) ∧
    ∀ id d q u p, n'.Arriving id (.update d q u) → n'.hub.peer? id = some p →
      n'.hub.clockRefusal? p u.clock = none := by
  obtain ⟨writes, c⟩ := h.consistent.run hrun
  refine ⟨fun name s hs hq => ?_, fun id d q u p ha hp => c.clockRefusal? ha hp⟩
  rw [c.snapshot?_eq hs hq, c.snapshot_eq hs hq]

/-- Two replicas of one document, of which one writes and the other connects only afterwards. -/
def apartReplicas : Network :=
  { hub := { policy := ⟨⟨none⟩, ⟨["output"]⟩, .empty, 10, 1000⟩ }
    stations :=
      [("one", { provider := { doc := "d", client := "ada", document := { replica := "a" } } }),
        ("two", { provider := { doc := "d", client := "bob", document := { replica := "b" } } })] }

def lateReplica : Network :=
  let written := ((apartReplicas.attach "one").2.act "one" fun p => p.set "f" .null).2
  let sent := (written.sendNext "one").sendNext "one"
  (((sent.attach "two").2.sendNext "two").collectNext "two").receiveNext "two"

theorem quiet_replica_agrees_late :
    apartReplicas.Start "d" ∧ Relation.ReflTransGen Step apartReplicas lateReplica ∧
      ∃ s, Entries.get? "two" lateReplica.stations = some s ∧ s.Quiet lateReplica.hub ∧
        s.provider.document.size = 1 ∧
        lateReplica.hub.snapshot? "d" = some s.provider.document.snapshot := by
  have hstart : apartReplicas.Start "d" := by
    have hget : ∀ name s, Entries.get? name apartReplicas.stations = some s →
        name = "one" ∧ s = { provider := { doc := "d", client := "ada", document := { replica := "a" } } } ∨
          name = "two" ∧
            s = { provider := { doc := "d", client := "bob", document := { replica := "b" } } } := by
      intro name s hs
      simp only [apartReplicas, Entries.get?] at hs
      split at hs
      · next e => exact .inl ⟨e, (Option.some.inj hs).symm⟩
      · split at hs
        · next e => exact .inr ⟨e, (Option.some.inj hs).symm⟩
        · cases hs
    refine ⟨rfl, rfl, fun name s hs => ?_, fun a b s t hab hs ht => ?_⟩
    · rcases hget name s hs with ⟨-, rfl⟩ | ⟨-, rfl⟩
      · exact ⟨"ada", "a", rfl, by decide, by decide⟩
      · exact ⟨"bob", "b", rfl, by decide, by decide⟩
    · rcases hget a s hs with ⟨rfl, rfl⟩ | ⟨rfl, rfl⟩ <;>
        rcases hget b t ht with ⟨rfl, rfl⟩ | ⟨rfl, rfl⟩
      · exact absurd rfl hab
      · exact show "a" ≠ "b" by decide
      · exact show "b" ≠ "a" by decide
      · exact absurd rfl hab
  have hrun : Relation.ReflTransGen Step apartReplicas lateReplica :=
    .tail (.tail (.tail (.tail (.tail (.tail (.tail (.tail .refl
      (.attach _ "one")) (.write _ "one" "f" .null (by decide +kernel))) (.send _ "one")) (.send _ "one"))
      (.attach _ "two")) (.send _ "two")) (.collect _ "two")) (.receive _ "two")
  have hquiet : ∃ s, Entries.get? "two" lateReplica.stations = some s ∧ s.Quiet lateReplica.hub ∧
      s.provider.document.size = 1 := by
    refine ⟨_, rfl, ⟨⟨2, ⟨2, "d", "bob", none⟩, rfl, rfl, rfl⟩, rfl, fun l hl => ?_, rfl⟩, rfl⟩
    cases hl
    rfl
  obtain ⟨s, hs, hq, hsize⟩ := hquiet
  exact ⟨hstart, hrun, s, hs, hq, hsize, (quiet_replica_agrees hstart hrun).1 "two" s hs hq⟩

end Network

end SecureLayout.Collab
