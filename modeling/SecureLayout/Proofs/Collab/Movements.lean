import Mathlib.Logic.Relation
import SecureLayout.Proofs.Collab.Writing

/-!
Replicas of one document, their links and the relay, moving in any order. Main statement: whatever moves
next, every replica, every link and the relay stay in order.
-/

namespace SecureLayout.Collab

open Json (Value)
open Wire (Clock FieldUpdate SyncMessage)

/-! ### Runs -/

/-- One movement of the network. A link breaks by `cut` or because the relay drops a peer whose queue is
full, which any message that it handles may cause. -/
inductive Network.Step : Network → Network → Prop
  | write (n : Network) (name field : String) (value : Value)
      (allowed : n.hub.policy.isOutputField field = true) :
      Step n (n.act name fun p => p.set field value).2
  | publish (n : Network) (name : String) (state : Option Value) :
      Step n (n.act name fun p => p.publish state).2
  | attach (n : Network) (name : String) : Step n (n.attach name).2
  | detach (n : Network) (name : String) : Step n (n.detach name)
  | send (n : Network) (name : String) : Step n (n.sendNext name)
  | collect (n : Network) (name : String) : Step n (n.collectNext name)
  | receive (n : Network) (name : String) : Step n (n.receiveNext name)
  | notice (n : Network) (name : String) : Step n (n.notice name)
  | leaveNext (n : Network) (peer : Nat) : Step n (n.leaveNext peer)
  | leave (n : Network) (peer : Nat) : Step n (n.leave peer)
  | cut (n : Network) (name : String) : Step n (n.cut name)

/-! ### What every run keeps -/

/-- A replica and its link are in order. -/
structure Station.InOrder (doc : String) (writes : List FieldUpdate) (h : Hub) (s : Station) :
    Prop where
  faithful : Faithful doc writes (h.replica doc) s.provider
  unlinked : s.peer = none → s.provider.link = none ∧ s.incoming = []
  linked : ∀ id, s.peer = some id → ∃ out, s.provider.link = some { outgoing := out } ∧
    Outbox doc writes h s.provider.document.replica id out ∧
    Exchange doc writes h s.provider id out s.incoming

/-- A station without a link is in order if its replica is. -/
theorem Faithful.inOrder {doc : String} {writes : List FieldUpdate} {h : Hub} {p : Provider}
    (hf : Faithful doc writes (h.replica doc) p) (hl : p.link = none) :
    Station.InOrder doc writes h { provider := p } :=
  ⟨hf, fun _ => ⟨hl, rfl⟩, fun _ hid => nomatch hid⟩

/-- Two stations write as different replicas over different links. -/
structure Station.Apart (s t : Station) : Prop where
  replica : s.provider.document.replica ≠ t.provider.document.replica
  peer : ∀ id, s.peer = some id → t.peer ≠ some id

structure Network.Consistent (doc : String) (writes : List FieldUpdate) (n : Network) : Prop where
  sound : n.hub.Sound
  honest : Honest n.hub.policy writes
  held : (n.hub.replica doc).WellFormed
  known : ∀ e ∈ (n.hub.replica doc).snapshot, e ∈ writes
  station : ∀ name s, Entries.get? name n.stations = some s → s.InOrder doc writes n.hub
  apart : ∀ a b s t, a ≠ b → Entries.get? a n.stations = some s →
    Entries.get? b n.stations = some t → s.Apart t
  leaving : ∀ l ∈ n.leaving, ∃ r, Outbox doc writes n.hub r l.1 l.2
  left : ∀ l ∈ n.leaving, ∀ name s, Entries.get? name n.stations = some s → s.peer ≠ some l.1
  nodup : (n.leaving.map (·.1)).Nodup

namespace Network

variable {doc name : String} {writes : List FieldUpdate} {n : Network} {s s' : Station} {h' : Hub}

/-- A station in place of the one of its name gets into nobody's way. -/
def HasPlace (n : Network) (name : String) (s : Station) : Prop :=
  (∀ other t, other ≠ name → Entries.get? other n.stations = some t → s.Apart t) ∧
    ∀ l ∈ n.leaving, s.peer ≠ some l.1

def without (n : Network) (name : String) : Network :=
  { n with stations := Entries.remove name n.stations }

/-! ### Taking a station out and putting it back -/

theorem get?_without {other : String} {t : Station}
    (ht : Entries.get? other (n.without name).stations = some t) :
    other ≠ name ∧ Entries.get? other n.stations = some t := by
  unfold without at ht
  rw [Entries.get?_remove] at ht
  split at ht
  · cases ht
  · next hne => exact ⟨hne, ht⟩

theorem Consistent.without (c : Consistent doc writes n) (name : String) :
    Consistent doc writes (n.without name) :=
  { c with
    station := fun other t ht => c.station other t (get?_without ht).2
    apart := fun a b s t hab hs ht => c.apart a b s t hab (get?_without hs).2 (get?_without ht).2
    left := fun l hl other t ht => c.left l hl other t (get?_without ht).2 }

theorem Consistent.put (c : Consistent doc writes (n.without name)) (hs : s.InOrder doc writes n.hub)
    (hplace : n.HasPlace name s) : Consistent doc writes (n.put name s) := by
  have hget : ∀ other t, Entries.get? other (n.put name s).stations = some t →
      other = name ∧ t = s ∨ other ≠ name ∧ Entries.get? other n.stations = some t := by
    intro other t ht
    unfold Network.put at ht
    rw [Entries.get?_put] at ht
    split at ht
    · next e =>
      cases ht
      exact .inl ⟨e, rfl⟩
    · next e => exact .inr ⟨e, ht⟩
  have hback : ∀ other t, other ≠ name → Entries.get? other n.stations = some t →
      Entries.get? other (n.without name).stations = some t := by
    intro other t hne ht
    unfold Network.without
    rw [Entries.get?_remove, if_neg hne]
    exact ht
  refine ⟨c.sound, c.honest, c.held, c.known, fun other t ht => ?_, fun a b u v hab hu hv => ?_,
    c.leaving, fun l hl other t ht => ?_, c.nodup⟩
  · rcases hget other t ht with ⟨-, rfl⟩ | ⟨hne, ht⟩
    · exact hs
    · exact c.station other t (hback other t hne ht)
  · rcases hget a u hu with ⟨ha, hus⟩ | ⟨ha, hu'⟩
    · rcases hget b v hv with ⟨hb, -⟩ | ⟨hb, hv'⟩
      · exact absurd (ha.trans hb.symm) hab
      · exact hus ▸ hplace.1 b v hb hv'
    · rcases hget b v hv with ⟨-, hvs⟩ | ⟨hb, hv'⟩
      · have hst := hplace.1 a u ha hu'
        exact hvs ▸ ⟨hst.replica.symm, fun id hid hid' => hst.peer id hid' hid⟩
      · exact c.apart a b u v hab (hback a u ha hu') (hback b v hb hv')
  · rcases hget other t ht with ⟨-, rfl⟩ | ⟨hne, ht⟩
    · exact hplace.2 l hl
    · exact c.left l hl other t (hback other t hne ht)

theorem Consistent.hasPlace (c : Consistent doc writes n)
    (hs : Entries.get? name n.stations = some s)
    (hr : s'.provider.document.replica = s.provider.document.replica)
    (hp : s'.peer = s.peer ∨ s'.peer = none) : n.HasPlace name s' := by
  have hpeer : ∀ id, s'.peer = some id → s.peer = some id := by
    intro id hid
    rcases hp with hp | hp
    · exact hp ▸ hid
    · rw [hp] at hid
      cases hid
  refine ⟨fun other t hne ht => ?_, fun l hl hid => ?_⟩
  · have ha := c.apart name other s t hne.symm hs ht
    exact ⟨hr ▸ ha.replica, fun id hid => ha.peer id (hpeer id hid)⟩
  · exact c.left l hl name s hs (hpeer l.1 hid)

/-! ### What others make the relay do -/

theorem Consistent.beside (c : Consistent doc writes n) {us : List FieldUpdate} {watch : Nat → Prop}
    (hs : h'.Sound) (b : Hub.Beside doc us watch n.hub h') (hus : us.length ≤ 1)
    (hsub : ∀ u ∈ us, u ∈ writes)
    (hstations : ∀ name s id, Entries.get? name n.stations = some s → s.peer = some id → watch id)
    (hleaving : ∀ l ∈ n.leaving, watch l.1) : Consistent doc writes { n with hub := h' } := by
  refine ⟨hs, b.policy ▸ c.honest, ?_, fun e he => ?_, fun name s hget => ?_, c.apart, fun l hl => ?_,
    c.left, c.nodup⟩
  · change (h'.replica doc).WellFormed
    rw [b.replica]
    exact c.held.mergeAll us
  · rcases mem_snapshot_beside c.held b hus he with he | ⟨he, -⟩
    · exact c.known e he
    · exact hsub e he
  · have hin := c.station name s hget
    refine ⟨hin.faithful.beside b, hin.unlinked, fun id hid => ?_⟩
    obtain ⟨out, hlink, ho, x⟩ := hin.linked id hid
    have hw := hstations name s id hget hid
    exact ⟨out, hlink, ho.beside b hw, x.beside ho c.held b hw hus hsub⟩
  · obtain ⟨r, ho⟩ := c.leaving l hl
    exact ⟨r, ho.beside b (hleaving l hl)⟩

/-- The relay ends a connection, which others may be told of. -/
theorem Consistent.disconnect (c : Consistent doc writes n) (peer : Nat) :
    Consistent doc writes { n with hub := n.hub.disconnect peer } := by
  have hsends := Hub.sends_disconnect n.hub peer
  exact c.beside (hsends.sound c.sound) (hsends.beside c.sound doc fun _ => True) (Nat.zero_le 1)
    (fun u hu => absurd hu List.not_mem_nil) (fun _ _ _ _ _ => trivial) fun _ _ => trivial

/-! ### Messages that reach the relay -/

/-- The relay handles what was sent first over a link that is in order, or over one whose peer is gone. -/
theorem Consistent.handle (c : Consistent doc writes n) {r : String} {id : Nat} {m : SyncMessage}
    {out : List SyncMessage} (ho : Outbox doc writes n.hub r id (m :: out)) :
    (n.hub.handle id m).Sound ∧ Outbox doc writes (n.hub.handle id m) r id out ∧
      (∃ us, us.length ≤ 1 ∧ (∀ u ∈ us, u ∈ writes) ∧
        Hub.Beside doc us (· ≠ id) n.hub (n.hub.handle id m)) ∧
      ∀ p inc, p.document.replica = r → Faithful doc writes (n.hub.replica doc) p →
        Exchange doc writes n.hub p id (m :: out) inc →
        Exchange doc writes (n.hub.handle id m) p id out inc := by
  cases hp : n.hub.peer? id with
  | none =>
    rw [handle_of_peer?_eq_none hp]
    refine ⟨c.sound, ho.tail_of_gone hp, ⟨[], Nat.zero_le 1, fun u hu => absurd hu List.not_mem_nil, ?_⟩,
      fun p inc _ _ x => x.tail_of_gone hp⟩
    exact (Hub.Sends.refl n.hub).beside c.sound doc _
  | some q =>
    have a := ho.answered c.sound c.honest hp
    have hm := ho.sent m (List.mem_cons_self ..)
    refine ⟨a.sound, ho.tail a, ⟨updatesIn m, ?_, fun u hu => ?_, a.beside⟩,
      fun p inc hr hf x => x.tail hf c.held (hr ▸ ho) c.known a⟩
    · cases m <;> first | exact Nat.le_refl 1 | exact Nat.zero_le 1 | exact hm.elim
    · cases m with
      | update d q v => exact List.mem_singleton.1 hu ▸ hm.2.1
      | hello d c => exact absurd hu List.not_mem_nil
      | awareness d c s => exact absurd hu List.not_mem_nil
      | _ => exact hm.elim

theorem Consistent.sendNext (c : Consistent doc writes n) (name : String) :
    Consistent doc writes (n.sendNext name) := by
  unfold Network.sendNext
  split
  · exact c
  · next s hs =>
    have hin := c.station name s hs
    split
    · next m p id ht hid =>
      obtain ⟨out, hlink, ho, x⟩ := hin.linked id hid
      unfold Provider.takeNext at ht
      rw [hlink] at ht
      cases out with
      | nil => cases ht
      | cons m' out =>
        cases ht
        obtain ⟨hsound, ho', ⟨us, hus, hsub, b⟩, hx⟩ := c.handle ho
        have hrest := (c.without name).beside hsound b hus hsub
          (fun other t i hget hi he => by
            obtain ⟨hne, hget⟩ := get?_without hget
            exact (c.apart name other s t hne.symm hs hget).peer id hid (he ▸ hi))
          (fun l hl he => c.left l hl name s hs (he ▸ hid))
        refine Consistent.put (n := { n with hub := n.hub.handle id m }) hrest ⟨?_, ?_, ?_⟩
          (c.hasPlace hs rfl (.inl rfl))
        · exact (hin.faithful.beside b).merged ⟨rfl, rfl, rfl, rfl, rfl, rfl⟩
            fun u hu => absurd hu List.not_mem_nil
        · intro hnone
          rw [hid] at hnone
          cases hnone
        · intro i hi
          cases hid.symm.trans hi
          exact ⟨out, rfl, ho', (hx s.provider s.incoming rfl hin.faithful x).merged_nil
            ⟨rfl, rfl, rfl, rfl, rfl, rfl⟩⟩
    · exact c

/-! ### Links that were given up -/

theorem mem_of_lookup {β : Type} {k : Nat} {v : β} {l : List (Nat × β)}
    (h : l.lookup k = some v) : (k, v) ∈ l := by
  obtain ⟨a, b, rfl, -⟩ := List.lookup_eq_some_iff.1 h
  simp

theorem Consistent.drop (c : Consistent doc writes n) (peer : Nat) :
    Consistent doc writes { n with leaving := n.leaving.filter (·.1 != peer) } :=
  { c with
    leaving := fun l hl => c.leaving l (List.mem_of_mem_filter hl)
    left := fun l hl => c.left l (List.mem_of_mem_filter hl)
    nodup := c.nodup.sublist (List.filter_sublist.map _) }

theorem Consistent.leave (c : Consistent doc writes n) (peer : Nat) :
    Consistent doc writes (n.leave peer) :=
  (c.drop peer).disconnect peer

theorem Consistent.leaveNext (c : Consistent doc writes n) (peer : Nat) :
    Consistent doc writes (n.leaveNext peer) := by
  unfold Network.leaveNext
  split
  · next m out hl =>
    have hmem := mem_of_lookup hl
    obtain ⟨r, ho⟩ := c.leaving _ hmem
    obtain ⟨hsound, ho', ⟨us, hus, hsub, b⟩, -⟩ := c.handle ho
    have hrest := (c.drop peer).beside hsound b hus hsub
      (fun name s i hget hi he => c.left _ hmem name s hget (he ▸ hi))
      (fun l hl => by simpa using (List.mem_filter.1 hl).2)
    have hentry : ∀ l ∈ n.leaving.map fun l => if l.1 == peer then (peer, out) else l,
        l = (peer, out) ∨ l ∈ n.leaving.filter (·.1 != peer) := by
      intro l hl
      obtain ⟨k, hk, rfl⟩ := List.mem_map.1 hl
      by_cases he : k.1 = peer
      · exact .inl (by simp [he])
      · exact .inr (by simp [he, hk])
    refine { hrest with leaving := fun l hl => ?_, left := fun l hl => ?_, nodup := ?_ }
    · rcases hentry l hl with rfl | hl
      · exact ⟨r, ho'⟩
      · exact hrest.leaving l hl
    · rcases hentry l hl with rfl | hl
      · exact c.left (peer, m :: out) hmem
      · exact hrest.left l hl
    · have hids : (n.leaving.map fun l => if l.1 == peer then (peer, out) else l).map (·.1) =
          n.leaving.map (·.1) := by
        rw [List.map_map]
        refine List.map_congr_left fun l _ => ?_
        by_cases he : l.1 = peer <;> simp [he]
      exact hids ▸ c.nodup
  · exact c

theorem hub_release (n : Network) (s : Station) : (n.release s).hub = n.hub := by
  unfold release
  split <;> rfl

theorem stations_release (n : Network) (s : Station) : (n.release s).stations = n.stations := by
  unfold release
  split <;> rfl

theorem deaf_release (n : Network) (s : Station) : (n.release s).deaf = n.deaf := by
  unfold release
  split <;> rfl

theorem mem_leaving_release {l : Nat × List SyncMessage} (hl : l ∈ (n.release s).leaving) :
    l ∈ n.leaving ∨ s.peer = some l.1 := by
  unfold release at hl
  split at hl
  · exact .inl hl
  · next id hid =>
    rcases List.mem_append.1 hl with hl | hl
    · exact .inl hl
    · exact .inr (List.mem_singleton.1 hl ▸ hid)

/-- A link that a replica gives up goes on being in order without it. -/
theorem Consistent.release (c : Consistent doc writes n)
    (hs : Entries.get? name n.stations = some s) :
    Consistent doc writes ((n.release s).without name) := by
  have hin := c.station name s hs
  unfold Network.release
  split
  · exact c.without name
  · next id hid =>
    obtain ⟨out, hlink, ho, -⟩ := hin.linked id hid
    have hsent : (s.provider.link.map (·.outgoing)).getD [] = out := by rw [hlink]; rfl
    rw [hsent]
    have hfree : id ∉ n.leaving.map (·.1) := by
      intro hmem
      obtain ⟨l, hl, rfl⟩ := List.mem_map.1 hmem
      exact c.left l hl name s hs hid
    have hrest := c.without name
    refine { hrest with leaving := fun l hl => ?_, left := fun l hl other t ht => ?_, nodup := ?_ }
    · rcases List.mem_append.1 hl with hl | hl
      · exact c.leaving l hl
      · rw [List.mem_singleton.1 hl]
        exact ⟨_, ho⟩
    · rcases List.mem_append.1 hl with hl | hl
      · exact hrest.left l hl other t ht
      · rw [List.mem_singleton.1 hl]
        obtain ⟨hne, hget⟩ := get?_without ht
        exact (c.apart name other s t hne.symm hs hget).peer id hid
    · change ((n.leaving ++ [(id, out)]).map (·.1)).Nodup
      rw [List.map_append]
      refine List.nodup_append.2 ⟨c.nodup, by simp, fun i hi j hj he => hfree ?_⟩
      have hj : j = id := by simpa using hj
      exact hj ▸ he ▸ hi

/-! ### Messages that leave the relay -/

theorem Consistent.collectNext (c : Consistent doc writes n) (name : String) :
    Consistent doc writes (n.collectNext name) := by
  unfold Network.collectNext
  split
  · exact c
  · next s hs =>
    have hin := c.station name s hs
    split
    · exact c
    · next id hid =>
      split
      · exact c
      · next m h' ht =>
        obtain ⟨out, hlink, ho, x⟩ := hin.linked id hid
        have b := Hub.beside_takeNext ht doc
        have hmail := Hub.mail_takeNext ht
        obtain ⟨r, -, hh⟩ := Hub.takeNext_eq_some ht
        have hsound : h'.Sound := hh ▸ c.sound.updateMailbox id _ fun _ => ⟨rfl, rfl⟩
        have hpeer : h'.peer? id = n.hub.peer? id := by rw [hh]; rfl
        have hreplica : h'.replica doc = n.hub.replica doc := by rw [hh]; rfl
        have hnext : h'.nextPeer = n.hub.nextPeer := by rw [hh]; rfl
        have hflight : s.incoming ++ [m] ++ h'.mail id = s.incoming ++ n.hub.mail id := by
          rw [hmail, List.append_assoc]
          rfl
        have hrest := (c.without name).beside hsound b (Nat.zero_le 1)
          (fun u hu => absurd hu List.not_mem_nil)
          (fun other t i hget hi he => by
            obtain ⟨hne, hget⟩ := get?_without hget
            exact (c.apart name other s t hne.symm hs hget).peer id hid (he ▸ hi))
          (fun l hl he => c.left l hl name s hs (he ▸ hid))
        refine Consistent.put (n := { n with hub := h' }) hrest ⟨hin.faithful.beside b, ?_, ?_⟩
          (c.hasPlace hs rfl (.inl rfl))
        · intro hnone
          rw [hid] at hnone
          cases hnone
        · intro i hi
          cases hid.symm.trans hi
          refine ⟨out, hlink, ⟨hnext ▸ ho.used, ho.sent, ?_, ?_⟩, ?_⟩
          · rw [hpeer]
            exact ho.bound
          · rw [hpeer, hreplica]
            exact ho.inStep
          · refine ⟨?_, ?_, x.sent, ?_, ?_⟩
            · rw [hflight, hreplica]
              exact x.acks
            · rw [hflight, hreplica]
              exact x.updates
            · rw [hpeer, hreplica]
              exact x.waiting
            · rw [hpeer, hreplica, hflight]
              exact x.complete

theorem Consistent.receiveNext (c : Consistent doc writes n) (name : String) :
    Consistent doc writes (n.receiveNext name) := by
  unfold Network.receiveNext
  split
  · exact c
  · next s hs =>
    have hin := c.station name s hs
    split
    · exact c
    · next m r hinc =>
      have hreplica := replica_receive s.provider m
      cases hpeer : s.peer with
      | none =>
        rw [(hin.unlinked hpeer).2] at hinc
        cases hinc
      | some id =>
        obtain ⟨out, hlink, ho, x⟩ := hin.linked id hpeer
        rw [hinc] at x
        obtain ⟨hf, hx⟩ := x.receive hin.faithful
        refine (c.without name).put ⟨hf, fun hnone => ?_, fun i hi => ?_⟩
          (c.hasPlace hs hreplica (.inl hpeer.symm))
        · cases hnone
        · cases hi
          refine ⟨out, (link_receive _ m).trans hlink, ?_, hx⟩
          exact hreplica.symm ▸ ho

/-! ### What replicas do -/

theorem Consistent.notice (c : Consistent doc writes n) (name : String) :
    Consistent doc writes (n.notice name) := by
  unfold Network.notice
  split
  · exact c
  · next s hs =>
    have hin := c.station name s hs
    split
    · next hgone =>
      have hempty : s.incoming = [] := by
        simp only [Bool.and_eq_true, List.isEmpty_iff] at hgone
        exact hgone.1
      rw [hempty]
      refine (c.without name).put ?_ (c.hasPlace hs rfl (.inr rfl))
      exact (hin.faithful.merged_nil (merged_linkDown s.provider)).inOrder rfl
    · exact c

theorem Consistent.detach (c : Consistent doc writes n) (name : String) :
    Consistent doc writes (n.detach name) := by
  unfold Network.detach
  split
  · exact c
  · next s hs =>
    have hin := c.station name s hs
    have hf := (hub_release n s).symm ▸ hin.faithful.merged_nil (merged_linkDown s.provider)
    refine (c.release hs).put (hf.inOrder rfl) ⟨fun other t hne ht => ?_, fun l _ hid => nomatch hid⟩
    rw [stations_release] at ht
    exact ⟨(c.apart name other s t hne.symm hs ht).replica, fun id hid => nomatch hid⟩

/-- The ids of links, given up or not, were handed out by the relay. -/
theorem Consistent.peer_lt (c : Consistent doc writes n) :
    (∀ name s id, Entries.get? name n.stations = some s → s.peer = some id → id < n.hub.nextPeer) ∧
      ∀ l ∈ n.leaving, l.1 < n.hub.nextPeer := by
  refine ⟨fun name s id hs hid => ?_, fun l hl => ?_⟩
  · obtain ⟨out, -, ho, -⟩ := (c.station name s hs).linked id hid
    exact ho.used
  · obtain ⟨r, ho⟩ := c.leaving l hl
    exact ho.used

theorem Consistent.attach (c : Consistent doc writes n) (name : String) :
    Consistent doc writes (n.attach name).2 := by
  unfold Network.attach
  split
  · exact c
  · next s hs =>
    have hin := c.station name s hs
    have hf := hin.faithful
    split
    · exact c
    · next id h' hc =>
      rw [hf.doc_eq] at hc
      obtain ⟨hlt, hleft⟩ := c.peer_lt
      have hid : id = n.hub.nextPeer := (Hub.connect_eq_ok hc).1
      have b := Hub.beside_connect c.sound.toOrderly hc doc
      have c' : Consistent doc writes { n with hub := h' } :=
        c.beside (c.sound.connect hc) b (Nat.zero_le 1) (fun u hu => absurd hu List.not_mem_nil)
          hlt hleft
      obtain ⟨-, hlink, hm⟩ := attach_new s.provider
      have hreplica : (s.provider.attach {}).2.document.replica = s.provider.document.replica := by
        rw [hm.document]
        rfl
      refine (c'.release hs).put ?_ ⟨fun other t hne ht => ?_, fun l hl he => ?_⟩
      · rw [hub_release]
        refine ⟨(hf.beside b).merged_nil hm, (fun hnone => nomatch hnone), fun i hi => ?_⟩
        cases hi
        exact ⟨greeting s.provider, hlink, hreplica.symm ▸ hf.outbox_greeting c.sound hc,
          hf.exchange_greeting c.sound hc hm⟩
      · rw [stations_release] at ht
        refine ⟨hreplica.symm ▸ (c.apart name other s t hne.symm hs ht).replica, fun i hi he => ?_⟩
        cases hi
        exact absurd hid (Nat.ne_of_lt (hlt other t id ht he))
      · cases he
        rcases mem_leaving_release hl with hl | hpeer
        · exact absurd hid (Nat.ne_of_lt (hleft l hl))
        · exact absurd hid (Nat.ne_of_lt (hlt name s l.1 hs hpeer))

theorem Consistent.cut (c : Consistent doc writes n) (name : String) :
    Consistent doc writes (n.cut name) := by
  unfold Network.cut
  split
  · exact c
  · exact c.disconnect _

/-- A replica in its place, having done something that keeps it and its link in order. -/
theorem Consistent.act {α : Type} (c : Consistent doc writes n) {f : Provider → α × Provider}
    (hact : ∀ s, Entries.get? name n.stations = some s →
      (f s.provider).2.document.replica = s.provider.document.replica ∧
        Station.InOrder doc writes n.hub { s with provider := (f s.provider).2 }) :
    Consistent doc writes (n.act name f).2 := by
  unfold Network.act
  split
  · exact c
  · next s hs =>
    obtain ⟨hreplica, hin⟩ := hact s hs
    exact (c.without name).put hin (c.hasPlace hs hreplica (.inl rfl))

theorem Consistent.publish (c : Consistent doc writes n) (name : String) (state : Option Value) :
    Consistent doc writes (n.act name fun p => p.publish state).2 := by
  refine c.act fun s hs => ?_
  have hin := c.station name s hs
  cases hpeer : s.peer with
  | none =>
    have hlink := (hin.unlinked hpeer).1
    have hsame : (s.provider.publish state).2 = s.provider := by
      unfold Provider.publish
      rw [hlink]
    rw [hsame]
    exact ⟨rfl, hpeer ▸ hin⟩
  | some id =>
    obtain ⟨out, hlink, ho, x⟩ := hin.linked id hpeer
    have hsent : (s.provider.publish state).2 =
        { s.provider with
          link := some { outgoing := out ++ [.awareness s.provider.doc s.provider.client state] } } := by
      unfold Provider.publish
      rw [hlink]
      rfl
    have hm : Merged [] s.provider (s.provider.publish state).2 := by
      rw [hsent]
      exact ⟨rfl, rfl, rfl, rfl, rfl, rfl⟩
    refine ⟨by rw [hsent], hin.faithful.merged_nil hm, (fun hnone => nomatch hnone), fun i hi => ?_⟩
    cases hi
    refine ⟨out ++ [.awareness s.provider.doc s.provider.client state], by rw [hsent], ?_,
      x.present.merged_nil hm⟩
    rw [hsent]
    exact ho.present hin.faithful.doc_eq

theorem Consistent.mono (c : Consistent doc writes n) {u : FieldUpdate}
    (hh : Honest n.hub.policy (u :: writes))
    (hne : ∀ name s, Entries.get? name n.stations = some s →
      u.clock.replica ≠ s.provider.document.replica) : Consistent doc (u :: writes) n where
  sound := c.sound
  honest := hh
  held := c.held
  known e he := List.mem_cons_of_mem _ (c.known e he)
  station name s hs := by
    have hin := c.station name s hs
    refine ⟨hin.faithful.mono (hne name s hs), hin.unlinked, fun id hid => ?_⟩
    obtain ⟨out, hlink, ho, x⟩ := hin.linked id hid
    exact ⟨out, hlink, ho.mono (List.subset_cons_self ..), x.mono u⟩
  apart := c.apart
  leaving l hl := by
    obtain ⟨r, ho⟩ := c.leaving l hl
    exact ⟨r, ho.mono (List.subset_cons_self ..)⟩
  left := c.left
  nodup := c.nodup

/-- A local write that nobody else knows of yet. -/
theorem Consistent.write (c : Consistent doc writes n) (name field : String) (value : Value)
    (hfield : n.hub.policy.isOutputField field = true) :
    ∃ writes', Consistent doc writes' (n.act name fun p => p.set field value).2 := by
  unfold Network.act
  split
  · exact ⟨writes, c⟩
  · next s hs =>
    have hin := c.station name s hs
    have hf := hin.faithful
    cases hset : s.provider.document.set field value with
    | error e =>
      have hsame : (s.provider.set field value).2 = s.provider := by
        unfold Provider.set
        rw [hset]
      simp only [hsame]
      exact ⟨writes, (c.without name).put hin (c.hasPlace hs rfl (.inl rfl))⟩
    | ok r =>
      obtain ⟨u, d'⟩ := r
      have hreplica : d'.replica = s.provider.document.replica := (Document.set_eq_ok hset).2.2.2
      have hown : u.clock.replica = s.provider.document.replica := by
        rw [(Document.set_eq_ok hset).1]
      simp only [Provider.set_of_tracking hf.tracking hset]
      have hrest := (c.without name).mono (c.honest.wrote hf hset hfield) fun other t ht => by
        obtain ⟨hne, hget⟩ := get?_without ht
        exact hown ▸ (c.apart name other s t hne.symm hs hget).replica
      refine ⟨u :: writes, hrest.put ⟨hf.wrote hset, fun hnone => ?_, fun id hid => ?_⟩
        (c.hasPlace hs hreplica (.inl rfl))⟩
      · obtain ⟨hlink, hinc⟩ := hin.unlinked hnone
        refine ⟨?_, hinc⟩
        change s.provider.link.map _ = none
        rw [hlink]
        rfl
      · obtain ⟨out, hlink, ho, x⟩ := hin.linked id hid
        refine ⟨out ++ [s.provider.updateMessage s.provider.nextSeq u], ?_, ho.wrote hf x hset,
          x.wrote hf hset⟩
        change s.provider.link.map _ = _
        rw [hlink]
        rfl

/-! ### Every run -/

theorem Consistent.step {n' : Network} (c : Consistent doc writes n) (h : Step n n') :
    ∃ writes', Consistent doc writes' n' := by
  cases h with
  | write name field value allowed => exact c.write name field value allowed
  | publish name state => exact ⟨writes, c.publish name state⟩
  | attach name => exact ⟨writes, c.attach name⟩
  | detach name => exact ⟨writes, c.detach name⟩
  | send name => exact ⟨writes, c.sendNext name⟩
  | collect name => exact ⟨writes, c.collectNext name⟩
  | receive name => exact ⟨writes, c.receiveNext name⟩
  | notice name => exact ⟨writes, c.notice name⟩
  | leaveNext peer => exact ⟨writes, c.leaveNext peer⟩
  | leave peer => exact ⟨writes, c.leave peer⟩
  | cut name => exact ⟨writes, c.cut name⟩

theorem Consistent.run {n' : Network} (c : Consistent doc writes n)
    (h : Relation.ReflTransGen Step n n') : ∃ writes', Consistent doc writes' n' := by
  induction h with
  | refl => exact ⟨writes, c⟩
  | tail _ hstep ih =>
    obtain ⟨writes', c'⟩ := ih
    exact c'.step hstep

/-! ### Settling is a run -/

theorem Step.deaf {n' : Network} (h : Step n n') : n'.deaf = n.deaf := by
  cases h with
  | write name field value _ => unfold act; split <;> rfl
  | publish name state => unfold act; split <;> rfl
  | attach name =>
    unfold Network.attach
    split
    · rfl
    · split
      · rfl
      · exact deaf_release _ _
  | detach name =>
    unfold Network.detach
    split
    · rfl
    · exact deaf_release _ _
  | send name => unfold sendNext; repeat (first | rfl | split)
  | collect name => unfold collectNext; repeat (first | rfl | split)
  | receive name => unfold receiveNext; repeat (first | rfl | split)
  | notice name => unfold Network.notice; repeat (first | rfl | split)
  | leaveNext peer => unfold Network.leaveNext; split <;> rfl
  | leave peer => rfl
  | cut name => unfold Network.cut; split <;> rfl

theorem deaf_run {n' : Network} (h : Relation.ReflTransGen Step n n') : n'.deaf = n.deaf := by
  induction h with
  | refl => rfl
  | tail _ hstep ih => exact hstep.deaf.trans ih

theorem run_foldl {α : Type} {f : Network → α → Network} (l : List α) (hdeaf : n.deaf = [])
    (hf : ∀ n a, n.deaf = [] → Relation.ReflTransGen Step n (f n a)) :
    Relation.ReflTransGen Step n (l.foldl f n) := by
  induction l generalizing n with
  | nil => exact .refl
  | cons a l ih =>
    have ha := hf n a hdeaf
    exact ha.trans (ih ((deaf_run ha).trans hdeaf))

theorem route_run (hdeaf : n.deaf = []) : Relation.ReflTransGen Step n n.route := by
  have hall : Relation.ReflTransGen Step n n.deliverAll := by
    refine run_foldl _ hdeaf fun n name hd => ?_
    have hcollect : Relation.ReflTransGen Step n (n.collect name) :=
      run_foldl _ hd fun n _ _ => .single (.collect n name)
    have hreceive := run_foldl (f := fun (n : Network) (_ : SyncMessage) => n.receiveNext name)
      (((Entries.get? name (n.collect name).stations).map (·.incoming)).getD [])
      ((deaf_run hcollect).trans hd) fun n _ _ => .single (.receive n name)
    exact (hcollect.trans hreceive).tail (.notice _ name)
  unfold route
  rw [hdeaf]
  exact hall

/-- Settling is one order in which everything moves, as long as every peer's messages are taken. -/
theorem settle_run (hdeaf : n.deaf = []) : Relation.ReflTransGen Step n n.settle := by
  have hroute : ∀ {n n' : Network}, n.deaf = [] → Relation.ReflTransGen Step n n' →
      Relation.ReflTransGen Step n n'.route := fun hd h => h.trans (route_run ((deaf_run h).trans hd))
  have hflush : Relation.ReflTransGen Step n ((Entries.keys n.stations).foldl flush n) := by
    refine run_foldl _ hdeaf fun n name hd => run_foldl _ hd fun n _ hd => ?_
    exact hroute hd (.single (.send n name))
  refine hflush.trans (run_foldl _ ((deaf_run hflush).trans hdeaf) fun n l hd => hroute hd ?_)
  exact (run_foldl _ hd fun n _ _ => .single (.leaveNext n l.1)).tail (.leave _ l.1)

end Network

end SecureLayout.Collab
