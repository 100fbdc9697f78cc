import SecureLayout.Proofs.Collab.Merge
import SecureLayout.Proofs.Collab.Delivery

/-!
What one message of a peer makes of the relay. Main statements: an accepted write is merged and reaches
every other peer of its document if it was news, an announcement is answered with all of the document,
and everything else leaves documents alone.
-/

namespace SecureLayout.Collab.Hub

open Json (Value)
open Wire (Clock FieldUpdate SyncMessage)

/-- The relay's replica of a document. -/
def replica (h : Hub) (doc : String) : Document :=
  (h.room doc).document

/-- What links of a document that did not cause it see of a change: writes are merged, peers do not come
back, and queues grow by presence and by those writes, which none of the peers misses that are news. -/
structure Beside (doc : String) (us : List FieldUpdate) (watch : Nat → Prop) (h h' : Hub) : Prop where
  policy : h'.policy = h.policy
  nextPeer : h.nextPeer ≤ h'.nextPeer
  replica : h'.replica doc = (h.replica doc).mergeAll us
  peer : ∀ i, watch i → ∀ p, h'.peer? i = some p → h.peer? i = some p
  mail : ∀ i, watch i → ∃ ms, h'.mail i = h.mail i ++ ms ∧
    ∀ m ∈ ms, IsPresence m ∨ ∃ d q, ∃ u ∈ us, m = .update d q u
  news : ∀ i, watch i → ∀ p, h'.peer? i = some p → p.doc = doc →
    ∀ u ∈ us, (h.replica doc).isNews u = true → ∃ d q, .update d q u ∈ h'.mail i

/-- The caller's side of an accepted write, before anything is sent: it is bound and the write merged. -/
def taken (h : Hub) (p : Peer) (u : FieldUpdate) : Hub :=
  let b := h.bind p.id u.clock.replica
  b.putRoom p.doc { b.room p.doc with document := ((b.room p.doc).document.merge u).2 }

/-! ### Changes that send presence alone -/

theorem Sends.beside {h h' : Hub} (hs : h.Sound) (s : Sends (fun _ m => IsPresence m) h h')
    (doc : String) (watch : Nat → Prop) : Beside doc [] watch h h' where
  policy := s.policy
  nextPeer := le_of_eq s.nextPeer.symm
  replica := s.document doc
  peer _ _ _ hp := s.peer?_eq hs.toOrderly hp
  mail i _ := by
    obtain ⟨ms, hm, hp⟩ := s.mail i
    exact ⟨ms, hm, fun m hmem => .inl (hp m hmem)⟩
  news _ _ _ _ _ u hu := absurd hu List.not_mem_nil

theorem sends_receiveAwareness (h : Hub) (p : Peer) (state : Option Value) :
    Sends (fun _ m => IsPresence m) h (h.receiveAwareness p state) := by
  unfold receiveAwareness
  have ha : Sends (fun _ m => IsPresence m) h
      { h with awareness := h.awareness.apply p.doc p.client state } :=
    (sends_awareness h _).mono fun _ _ hx => hx.elim
  refine ha.trans ((sends_broadcast _ _ _ _).mono fun _ _ hx => ?_)
  rcases hx with hx | ⟨-, rfl⟩
  · exact hx
  · trivial

/-! ### Announcements -/

theorem sends_welcome (h : Hub) (p : Peer) :
    Sends (fun i m => IsPresence m ∨ i = p.id ∧ m = .syncState p.doc (h.replica p.doc).snapshot) h
      (h.welcome p) := by
  have hfold : ∀ (states : Entries Value) (h : Hub), Sends (fun _ m => IsPresence m) h
      (states.foldl (fun h s => h.send p.id (.awareness p.doc s.1 (some s.2))) h) := by
    intro states
    induction states with
    | nil => exact fun h => .refl h
    | cons s r ih =>
      intro h
      refine Sends.trans ((sends_send h p.id _).mono fun _ _ hx => ?_) (ih _)
      rcases hx with hx | ⟨-, rfl⟩
      · exact hx
      · trivial
  exact (sends_send h p.id _).trans ((hfold _ _).mono fun _ _ hx => .inl hx)

theorem mem_mail_welcome {h : Hub} (hs : h.Sound) {p q : Peer}
    (hq : (h.welcome p).peer? p.id = some q) :
    .syncState p.doc (h.replica p.doc).snapshot ∈ (h.welcome p).mail p.id := by
  have hfirst := sends_send h p.id (.syncState p.doc (h.replica p.doc).snapshot)
  have hfold : ∀ (states : Entries Value) (h : Hub), Sends (fun _ _ => True) h
      (states.foldl (fun h s => h.send p.id (.awareness p.doc s.1 (some s.2))) h) := by
    intro states
    induction states with
    | nil => exact fun h => .refl h
    | cons s r ih =>
      intro h
      exact ((sends_send h p.id _).mono fun _ _ _ => trivial).trans (ih _)
  have hrest : Sends (fun _ _ => True) (h.send p.id (.syncState p.doc (h.replica p.doc).snapshot))
      (h.welcome p) := hfold _ _
  exact hrest.mem_mail (mem_mail_send hs _ (hrest.peer?_eq (hfirst.sound hs).toOrderly hq))

/-! ### Accepted writes -/

theorem peer?_bind (h : Hub) (id other : Nat) (r : String) :
    (h.bind id r).peer? other =
      (h.peer? other).map fun p => if p.id == id then { p with replica := some r } else p := by
  have hg : (fun p : Peer => (if p.id == id then { p with replica := some r } else p).id == other) =
      fun p => p.id == other := by
    funext p
    split <;> rfl
  unfold peer? bind
  simp only [List.find?_map, Function.comp_def, hg]

theorem mem_peers_taken {h : Hub} {p : Peer} {u : FieldUpdate} {q : Peer}
    (hq : q ∈ (h.taken p u).peers) : ∃ q' ∈ h.peers, q'.id = q.id ∧ q'.doc = q.doc := by
  obtain ⟨q', hq', rfl⟩ := List.mem_map.1 hq
  refine ⟨q', hq', ?_⟩
  split <;> exact ⟨rfl, rfl⟩

theorem room_taken (h : Hub) (p : Peer) (u : FieldUpdate) (doc : String) :
    (h.taken p u).room doc =
      if doc = p.doc then
        { h.room p.doc with document := ((h.room p.doc).document.merge u).2 }
      else h.room doc := by
  unfold taken
  exact room_putRoom _ p.doc doc _

theorem members_taken (h : Hub) (p : Peer) (u : FieldUpdate) (doc : String) :
    ((h.taken p u).room doc).members = (h.room doc).members := by
  rw [room_taken]
  split
  · next e => rw [e]
  · rfl

theorem Orderly.taken {h : Hub} (hs : h.Orderly) (p : Peer) (u : FieldUpdate) : (h.taken p u).Orderly := by
  refine ⟨fun q hq => ?_, hs.owners, fun doc i hi => ?_, ?_, fun doc => ?_, fun q hq doc => ?_⟩
  · obtain ⟨q', hq', he, -⟩ := mem_peers_taken hq
    exact he ▸ hs.peerIds q' hq'
  · rw [members_taken] at hi
    exact hs.memberIds doc i hi
  · refine List.pairwise_map.2 (hs.distinct.imp fun {a b} hab => ?_)
    split_ifs <;> exact hab
  · rw [members_taken]
    exact hs.nodup doc
  · obtain ⟨q', hq', he, hd⟩ := mem_peers_taken hq
    rw [members_taken, ← he, ← hd]
    exact hs.member q' hq' doc

theorem Sound.taken {h : Hub} (hs : h.Sound) (p : Peer) (u : FieldUpdate) : (h.taken p u).Sound := by
  refine hs.of_isRead (hs.toOrderly.taken p u) (fun q hq => ?_) fun _ => rfl
  obtain ⟨q', hq', he, -⟩ := mem_peers_taken hq
  exact ⟨q', hq', he⟩

theorem replica_taken (h : Hub) (p : Peer) (u : FieldUpdate) :
    (h.taken p u).replica p.doc = ((h.replica p.doc).merge u).2 := by
  unfold replica
  rw [room_taken, if_pos rfl]

theorem sends_acceptUpdate (h : Hub) (p : Peer) (seq : Nat) (u : FieldUpdate) :
    Sends (fun i m => IsPresence m ∨ i = p.id ∧ m = .ack p.doc seq ∨
        i ≠ p.id ∧ m = .update p.doc 0 u)
      (h.taken p u) ((h.bind p.id u.clock.replica).acceptUpdate p seq u) := by
  unfold acceptUpdate
  have hack := (sends_send (h.taken p u) p.id (.ack p.doc seq)).mono
    fun i m hx => (hx.imp_right .inl :
      IsPresence m ∨ i = p.id ∧ m = .ack p.doc seq ∨ i ≠ p.id ∧ m = .update p.doc 0 u)
  dsimp only
  split
  · exact hack.trans ((sends_broadcast _ _ _ _).mono fun i m hx => hx.imp_right .inr)
  · exact hack

theorem mem_mail_acceptUpdate {h : Hub} (hs : h.Sound) {p q : Peer} {seq : Nat} {u : FieldUpdate}
    {i : Nat} (hi : i ≠ p.id) (hnews : (h.replica p.doc).isNews u = true)
    (hq : ((h.bind p.id u.clock.replica).acceptUpdate p seq u).peer? i = some q) (hd : q.doc = p.doc) :
    .update p.doc 0 u ∈ ((h.bind p.id u.clock.replica).acceptUpdate p seq u).mail i := by
  have hmerge : (((h.bind p.id u.clock.replica).room p.doc).document.merge u).1 = true := by
    have hn : ((h.bind p.id u.clock.replica).room p.doc).document.isNews u = true := hnews
    unfold Document.merge
    simp only [hn, if_true]
  have hack := sends_send (h.taken p u) p.id (.ack p.doc seq)
  have he : (h.bind p.id u.clock.replica).acceptUpdate p seq u =
      ((h.taken p u).send p.id (.ack p.doc seq)).broadcast p.doc p.id (.update p.doc 0 u) := by
    unfold acceptUpdate
    simp only [hmerge, if_true]
    rfl
  rw [he] at hq ⊢
  exact mem_mail_broadcast (hack.sound (hs.taken p u)) hq hd hi

/-- What the other links see of an accepted write. -/
theorem beside_acceptUpdate {h : Hub} (hs : h.Sound) (p : Peer) (seq : Nat) (u : FieldUpdate) :
    Beside p.doc [u] (· ≠ p.id) h ((h.bind p.id u.clock.replica).acceptUpdate p seq u) := by
  have hs' := hs.taken p u
  have hsends := sends_acceptUpdate h p seq u
  have hpeer : ∀ i, i ≠ p.id → (h.taken p u).peer? i = h.peer? i := by
    intro i hi
    change (h.bind p.id u.clock.replica).peer? i = _
    rw [peer?_bind]
    cases hq : h.peer? i with
    | none => rfl
    | some q =>
      have hne : q.id ≠ p.id := (peer?_eq_some hq).2 ▸ hi
      simp [hne]
  refine ⟨hsends.policy, le_of_eq hsends.nextPeer.symm, ?_, fun i hi q hq => ?_, fun i hi => ?_,
    fun i hi q hq hd v hv hn => ?_⟩
  · rw [replica, hsends.document, ← replica, replica_taken]
    rfl
  · exact hpeer i hi ▸ hsends.peer?_eq hs'.toOrderly hq
  · obtain ⟨ms, hm, ha⟩ := hsends.mail i
    refine ⟨ms, hm, fun m hmem => ?_⟩
    rcases ha m hmem with h1 | ⟨h2, -⟩ | ⟨-, h3⟩
    · exact .inl h1
    · exact absurd h2 hi
    · exact .inr ⟨p.doc, 0, u, List.mem_singleton_self u, h3⟩
  · rw [List.mem_singleton.1 hv] at hn ⊢
    exact ⟨p.doc, 0, mem_mail_acceptUpdate hs hi hn hq hd⟩

/-! ### Connections and reading -/

theorem connect_eq_ok {h h' : Hub} {doc client : String} {id : Nat}
    (hc : h.connect doc client = .ok (id, h')) :
    id = h.nextPeer ∧ h' =
      { h.putRoom doc { h.room doc with members := (h.room doc).members ++ [id] } with
        peers := h.peers ++ [{ id, doc, client }]
        mailboxes := h.mailboxes ++ [{ owner := id }]
        nextPeer := id + 1 } := by
  unfold connect at hc
  split at hc
  · cases hc
  · split at hc
    · cases hc
    · cases hc
      exact ⟨rfl, rfl⟩

section Connecting

variable {h h' : Hub} {doc client : String} {id : Nat} (hs : h.Orderly)
  (hc : h.connect doc client = .ok (id, h'))

include hs hc

theorem peer?_connect (i : Nat) :
    h'.peer? i = if i = id then some { id, doc, client } else h.peer? i := by
  obtain ⟨rfl, rfl⟩ := connect_eq_ok hc
  simp only [peer?, List.find?_append, List.find?_cons, List.find?_nil]
  by_cases hi : i = h.nextPeer
  · subst hi
    have hnone : (h.peers.find? fun p => p.id == h.nextPeer) = none := by
      refine List.find?_eq_none.2 fun p hp => ?_
      have := hs.peerIds p hp
      simp only [beq_iff_eq]
      omega
    simp [hnone]
  · have hne : (h.nextPeer == i) = false := by simpa using Ne.symm hi
    simp [hne, hi]

theorem mailbox?_connect (i : Nat) :
    h'.mailbox? i = if i = id then some { owner := id } else h.mailbox? i := by
  obtain ⟨rfl, rfl⟩ := connect_eq_ok hc
  simp only [mailbox?, List.find?_append, List.find?_cons, List.find?_nil]
  by_cases hi : i = h.nextPeer
  · subst hi
    have hnone : (h.mailboxes.find? fun b => b.owner == h.nextPeer) = none := by
      refine List.find?_eq_none.2 fun b hb => ?_
      have := hs.owners b hb
      simp only [beq_iff_eq]
      omega
    simp [hnone]
  · have hne : (h.nextPeer == i) = false := by simpa using Ne.symm hi
    simp [hne, hi]

omit hs in
theorem room_connect (d : String) :
    h'.room d =
      if d = doc then { h.room doc with members := (h.room doc).members ++ [id] } else h.room d := by
  obtain ⟨rfl, rfl⟩ := connect_eq_ok hc
  exact room_putRoom h doc d _

theorem Orderly.connect : h'.Orderly := by
  have hroom := fun d => room_connect hc d
  obtain ⟨hid, hh⟩ := connect_eq_ok hc
  have hpeers : ∀ p, p ∈ h'.peers ↔ p ∈ h.peers ∨ p = { id, doc, client } := by
    rw [hh]
    simp
  have hold : ∀ p ∈ h.peers, p.id ≠ id := by
    intro p hp
    have := hs.peerIds p hp
    omega
  have hnew : ∀ d, id ∉ (h.room d).members := by
    intro d hm
    have := hs.memberIds d id hm
    omega
  have hmembers : ∀ d i, i ∈ (h'.room d).members ↔ i ∈ (h.room d).members ∨ d = doc ∧ i = id := by
    intro d i
    rw [hroom]
    split
    · next e => simp [e]
    · next e => simp [e]
  have hn : h'.nextPeer = h.nextPeer + 1 := by rw [hh, hid]
  refine ⟨fun p hp => ?_, fun b hb => ?_, fun d i hi => ?_, ?_, fun d => ?_, fun p hp d => ?_⟩
  · rcases (hpeers p).1 hp with hp | rfl
    · have := hs.peerIds p hp
      omega
    · change id < _
      omega
  · rw [hh] at hb
    rcases List.mem_append.1 hb with hb | hb
    · have := hs.owners b hb
      omega
    · rw [List.mem_singleton.1 hb]
      change id < _
      omega
  · rcases (hmembers d i).1 hi with hi | ⟨-, rfl⟩
    · have := hs.memberIds d i hi
      omega
    · omega
  · rw [hh]
    refine List.pairwise_append.2 ⟨hs.distinct, List.pairwise_singleton _ _, fun p hp q hq => ?_⟩
    rw [List.mem_singleton.1 hq]
    exact hold p hp
  · rw [hroom]
    split
    · exact List.nodup_append.2 ⟨hs.nodup doc, List.pairwise_singleton _ id, fun a ha b hb =>
        fun e => hnew doc (List.mem_singleton.1 hb ▸ e ▸ ha)⟩
    · exact hs.nodup d
  · rw [hmembers]
    rcases (hpeers p).1 hp with hp | rfl
    · rw [hs.member p hp d]
      simp [hold p hp]
    · simp [hnew d]

omit hs in
theorem Sound.connect (hs : h.Sound) : h'.Sound := by
  refine ⟨hs.toOrderly.connect hc, fun p hp => ?_⟩
  have hold : ∀ q ∈ h.peers, q.id ≠ id := by
    intro q hq
    have := hs.peerIds q hq
    have := (connect_eq_ok hc).1
    omega
  rw [mailbox?_connect hs.toOrderly hc]
  rw [(connect_eq_ok hc).2] at hp
  rcases List.mem_append.1 hp with hp | hp
  · rw [if_neg (hold p hp)]
    exact hs.mailbox p hp
  · rw [List.mem_singleton.1 hp]
    exact ⟨{ owner := id }, if_pos rfl, rfl⟩

theorem mail_connect (i : Nat) : h'.mail i = if i = id then [] else h.mail i := by
  unfold mail
  rw [mailbox?_connect hs hc]
  split <;> rfl

theorem beside_connect (d : String) : Beside d [] (· < h.nextPeer) h h' := by
  obtain ⟨hid, hh⟩ := connect_eq_ok hc
  have hne : ∀ i, i < h.nextPeer → i ≠ id := fun i hi => by omega
  refine ⟨by rw [hh]; rfl, by rw [hh, hid]; exact Nat.le_succ _, ?_, fun i hi p hp => ?_,
    fun i hi => ⟨[], ?_, fun m hm => absurd hm List.not_mem_nil⟩,
    fun i _ p _ _ u hu => absurd hu List.not_mem_nil⟩
  · unfold replica
    rw [room_connect hc]
    split
    · next e => rw [e]; rfl
    · rfl
  · rwa [peer?_connect hs hc, if_neg (hne i hi)] at hp
  · rw [mail_connect hs hc, if_neg (hne i hi), List.append_nil]

end Connecting

theorem takeNext_eq_some {h h' : Hub} {id : Nat} {m : SyncMessage}
    (ht : h.takeNext id = some (m, h')) :
    ∃ r, h.mail id = m :: r ∧ h' = h.updateMailbox id fun b => { b with queue := r } := by
  unfold takeNext at ht
  split at ht
  · cases ht
  · next x r hx =>
    cases ht
    exact ⟨r, hx, rfl⟩

theorem mail_takeNext {h h' : Hub} {id : Nat} {m : SyncMessage}
    (ht : h.takeNext id = some (m, h')) : h.mail id = m :: h'.mail id := by
  obtain ⟨r, hm, rfl⟩ := takeNext_eq_some ht
  have hf : ∀ b : Mailbox, ({ b with queue := r } : Mailbox).owner = b.owner := fun _ => rfl
  rw [hm]
  congr 1
  unfold mail at hm
  cases hb : h.mailbox? id with
  | none =>
    rw [hb] at hm
    cases hm
  | some b => rw [mail_updateMailbox_self hb _ hf]

theorem beside_takeNext {h h' : Hub} {id : Nat} {m : SyncMessage}
    (ht : h.takeNext id = some (m, h')) (doc : String) : Beside doc [] (· ≠ id) h h' := by
  obtain ⟨r, -, rfl⟩ := takeNext_eq_some ht
  refine ⟨rfl, le_refl _, rfl, fun i _ p hp => hp,
    fun i hi => ⟨[], ?_, fun m hm => absurd hm List.not_mem_nil⟩,
    fun i _ p _ _ u hu => absurd hu List.not_mem_nil⟩
  have hf : ∀ b : Mailbox, ({ b with queue := r } : Mailbox).owner = b.owner := fun _ => rfl
  rw [mail_updateMailbox h id i _ hf hi, List.append_nil]

end SecureLayout.Collab.Hub
