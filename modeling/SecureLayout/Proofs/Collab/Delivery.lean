import Mathlib.Data.List.Pairwise
import Mathlib.Tactic.SplitIfs
import SecureLayout.Collab.Hub

/-!
What reaches the peers of a relay. Main statements: sending and broadcasting, with every disconnection
that full queues set off, only drop peers and append to queues, and whoever is still connected afterwards
has been sent the message.
-/

namespace SecureLayout.Collab.Hub

open Json (Value)
open Wire (FieldUpdate SyncMessage)

/-! ### Connections in order -/

/-- Ids are used once, and every peer stands once on the list of its own document and on no other. -/
structure Orderly (h : Hub) : Prop where
  peerIds : ∀ p ∈ h.peers, p.id < h.nextPeer
  owners : ∀ b ∈ h.mailboxes, b.owner < h.nextPeer
  memberIds : ∀ doc, ∀ i ∈ (h.room doc).members, i < h.nextPeer
  distinct : h.peers.Pairwise fun p q => p.id ≠ q.id
  nodup : ∀ doc, (h.room doc).members.Nodup
  member : ∀ p ∈ h.peers, ∀ doc, p.id ∈ (h.room doc).members ↔ doc = p.doc

/-- Connections are in order and every peer's queue is read. -/
structure Sound (h : Hub) : Prop extends Orderly h where
  mailbox : ∀ p ∈ h.peers, ∃ b, h.mailbox? p.id = some b ∧ b.isRead = true

theorem Orderly.empty (policy : SecurityPolicy) : Orderly { policy } where
  peerIds _ hp := absurd hp List.not_mem_nil
  owners _ hb := absurd hb List.not_mem_nil
  memberIds _ _ hi := absurd hi List.not_mem_nil
  distinct := .nil
  nodup _ := .nil
  member _ hp := absurd hp List.not_mem_nil

theorem peer?_eq_some {h : Hub} {id : Nat} {p : Peer} (hp : h.peer? id = some p) :
    p ∈ h.peers ∧ p.id = id :=
  ⟨List.mem_of_find?_eq_some hp, by simpa using List.find?_some hp⟩

theorem Orderly.peer?_of_mem {h : Hub} (hs : h.Orderly) {p : Peer} (hp : p ∈ h.peers) :
    h.peer? p.id = some p := by
  obtain ⟨q, hq⟩ := Option.isSome_iff_exists.1 (List.find?_isSome (p := (·.id == p.id)).2 ⟨p, hp, by simp⟩)
  obtain ⟨hqm, hqi⟩ := peer?_eq_some hq
  have hqp : q = p := by
    by_contra hne
    have : Std.Symm fun p q : Peer => p.id ≠ q.id := ⟨fun _ _ h => h.symm⟩
    exact hs.distinct.forall hqm hp hne hqi
  exact hqp ▸ hq

/-! ### Queues -/

theorem mailbox?_updateMailbox (h : Hub) (id other : Nat) (f : Mailbox → Mailbox)
    (hf : ∀ b, (f b).owner = b.owner) :
    (h.updateMailbox id f).mailbox? other =
      if other = id then (h.mailbox? other).map f else h.mailbox? other := by
  have hg : (fun b : Mailbox => (if b.owner == id then f b else b).owner == other) =
      fun b => b.owner == other := by
    funext b
    split <;> simp [hf]
  unfold mailbox? updateMailbox
  simp only [List.find?_map, Function.comp_def, hg]
  cases hb : h.mailboxes.find? fun b => b.owner == other with
  | none => simp
  | some b =>
    have ho : b.owner = other := by simpa using List.find?_some hb
    by_cases e : other = id <;> simp [ho, e]

theorem mail_updateMailbox (h : Hub) (id other : Nat) (f : Mailbox → Mailbox)
    (hf : ∀ b, (f b).owner = b.owner) (hne : other ≠ id) :
    (h.updateMailbox id f).mail other = h.mail other := by
  rw [mail, mailbox?_updateMailbox h id other f hf, if_neg hne, mail]

theorem mail_updateMailbox_self {h : Hub} {id : Nat} {b : Mailbox} (hb : h.mailbox? id = some b)
    (f : Mailbox → Mailbox) (hf : ∀ b, (f b).owner = b.owner) :
    (h.updateMailbox id f).mail id = (f b).queue := by
  rw [mail, mailbox?_updateMailbox h id id f hf, if_pos rfl, hb]
  rfl

theorem Orderly.updateMailbox {h : Hub} (hs : h.Orderly) (id : Nat) (f : Mailbox → Mailbox)
    (hf : ∀ b, (f b).owner = b.owner) : (h.updateMailbox id f).Orderly := by
  refine ⟨hs.peerIds, fun b hb => ?_, hs.memberIds, hs.distinct, hs.nodup, hs.member⟩
  obtain ⟨a, ha, rfl⟩ := List.mem_map.1 hb
  split
  · exact hf a ▸ hs.owners a ha
  · exact hs.owners a ha

theorem isRead_updateMailbox (h : Hub) (id other : Nat) (f : Mailbox → Mailbox)
    (hf : ∀ b, (f b).owner = b.owner ∧ (f b).isRead = b.isRead) :
    ((h.updateMailbox id f).mailbox? other).map (·.isRead) = (h.mailbox? other).map (·.isRead) := by
  rw [mailbox?_updateMailbox h id other f fun b => (hf b).1]
  split
  · simp [Function.comp_def, hf]
  · rfl

/-- Peers that stay have queues that are read if all had. -/
theorem Sound.of_isRead {h h' : Hub} (hs : h.Sound) (ho : h'.Orderly)
    (hp : ∀ p ∈ h'.peers, ∃ q ∈ h.peers, q.id = p.id)
    (hr : ∀ id, (h'.mailbox? id).map (·.isRead) = (h.mailbox? id).map (·.isRead)) : h'.Sound := by
  refine ⟨ho, fun p hpm => ?_⟩
  obtain ⟨q, hq, hid⟩ := hp p hpm
  obtain ⟨b, hb, hbr⟩ := hs.mailbox q hq
  have hread := hr p.id
  rw [← hid, hb] at hread
  obtain ⟨b', hb', he⟩ := Option.map_eq_some_iff.1 hread
  exact ⟨b', hid ▸ hb', he.trans hbr⟩

theorem Sound.updateMailbox {h : Hub} (hs : h.Sound) (id : Nat) (f : Mailbox → Mailbox)
    (hf : ∀ b, (f b).owner = b.owner ∧ (f b).isRead = b.isRead) : (h.updateMailbox id f).Sound :=
  hs.of_isRead (hs.toOrderly.updateMailbox id f fun b => (hf b).1) (fun p hp => ⟨p, hp, rfl⟩)
    fun other => isRead_updateMailbox h id other f hf

/-! ### What sending changes -/

/-- The second relay comes from the first by dropping peers and by sending what is allowed. -/
structure Sends (allowed : Nat → SyncMessage → Prop) (h h' : Hub) : Prop where
  policy : h'.policy = h.policy
  nextPeer : h'.nextPeer = h.nextPeer
  peers : h'.peers.Sublist h.peers
  document : ∀ doc, (h'.room doc).document = (h.room doc).document
  mail : ∀ id, ∃ ms, h'.mail id = h.mail id ++ ms ∧ ∀ m ∈ ms, allowed id m
  isRead : ∀ id, (h'.mailbox? id).map (·.isRead) = (h.mailbox? id).map (·.isRead)
  orderly : h.Orderly → h'.Orderly

namespace Sends

variable {allowed allowed' : Nat → SyncMessage → Prop} {h h' h'' : Hub}

theorem refl (h : Hub) : Sends allowed h h :=
  ⟨rfl, rfl, List.Sublist.refl _, fun _ => rfl, fun _ => ⟨[], by simp⟩, fun _ => rfl, id⟩

theorem trans (a : Sends allowed h h') (b : Sends allowed h' h'') : Sends allowed h h'' where
  policy := b.policy.trans a.policy
  nextPeer := b.nextPeer.trans a.nextPeer
  peers := b.peers.trans a.peers
  document doc := (b.document doc).trans (a.document doc)
  mail id := by
    obtain ⟨ms, hm, ham⟩ := a.mail id
    obtain ⟨ns, hn, hbn⟩ := b.mail id
    refine ⟨ms ++ ns, by rw [hn, hm, List.append_assoc], fun m hmem => ?_⟩
    exact (List.mem_append.1 hmem).elim (ham m) (hbn m)
  isRead id := (b.isRead id).trans (a.isRead id)
  orderly hs := b.orderly (a.orderly hs)

theorem mono (a : Sends allowed h h') (hle : ∀ id m, allowed id m → allowed' id m) :
    Sends allowed' h h' where
  policy := a.policy
  nextPeer := a.nextPeer
  peers := a.peers
  document := a.document
  mail id := by
    obtain ⟨ms, hm, ham⟩ := a.mail id
    exact ⟨ms, hm, fun m hmem => hle id m (ham m hmem)⟩
  isRead := a.isRead
  orderly := a.orderly

theorem sound (a : Sends allowed h h') (hs : h.Sound) : h'.Sound :=
  hs.of_isRead (a.orderly hs.toOrderly) (fun p hp => ⟨p, a.peers.subset hp, rfl⟩) a.isRead

/-- Nothing is taken out of a queue. -/
theorem mem_mail (a : Sends allowed h h') {id : Nat} {m : SyncMessage} (hm : m ∈ h.mail id) :
    m ∈ h'.mail id := by
  obtain ⟨ms, he, -⟩ := a.mail id
  exact he ▸ List.mem_append_left _ hm

theorem peer?_eq (a : Sends allowed h h') (hs : h.Orderly) {id : Nat} {p : Peer}
    (hp : h'.peer? id = some p) : h.peer? id = some p := by
  obtain ⟨hm, rfl⟩ := peer?_eq_some hp
  exact hs.peer?_of_mem (a.peers.subset hm)

end Sends

theorem sends_forget (h : Hub) (p : Peer) : Sends (fun _ _ => False) h (h.forget p) := by
  have hroom : ∀ doc, ((h.forget p).room doc) =
      if doc = p.doc then { h.room p.doc with members := (h.room p.doc).members.filter (· != p.id) }
      else h.room doc := by
    intro doc
    exact room_putRoom h p.doc doc _
  refine ⟨rfl, rfl, List.filter_sublist, fun doc => ?_, fun _ => ⟨[], by simp [mail, forget, putRoom, mailbox?]⟩,
    fun _ => rfl, fun hs => ?_⟩
  · rw [hroom]
    split
    · next e => rw [e]
    · rfl
  · have hmem : ∀ q ∈ (h.forget p).peers, q ∈ h.peers ∧ q.id ≠ p.id := by
      intro q hq
      simpa [forget, putRoom] using hq
    have hmembers : ∀ doc, ((h.forget p).room doc).members =
        if doc = p.doc then (h.room doc).members.filter (· != p.id) else (h.room doc).members := by
      intro doc
      rw [hroom]
      split
      · next e => rw [e]
      · rfl
    refine ⟨fun q hq => hs.peerIds q (hmem q hq).1, hs.owners, fun doc i hi => ?_,
      hs.distinct.sublist List.filter_sublist, fun doc => ?_, fun q hq doc => ?_⟩
    · refine hs.memberIds doc i ?_
      rw [hmembers] at hi
      split at hi
      · exact (List.mem_filter.1 hi).1
      · exact hi
    · rw [hmembers]
      split
      · exact (hs.nodup doc).filter _
      · exact hs.nodup doc
    · rw [hmembers, ← hs.member q (hmem q hq).1 doc]
      split
      · simp [(hmem q hq).2]
      · exact Iff.rfl

theorem sends_awareness (h : Hub) (a : Awareness) : Sends (fun _ _ => False) h { h with awareness := a } :=
  ⟨rfl, rfl, List.Sublist.refl _, fun _ => rfl, fun _ => ⟨[], by simp [mail, mailbox?]⟩, fun _ => rfl,
    fun hs => ⟨hs.peerIds, hs.owners, hs.memberIds, hs.distinct, hs.nodup, hs.member⟩⟩

theorem sends_enqueue (h : Hub) (id : Nat) (m : SyncMessage) :
    Sends (fun i x => i = id ∧ x = m) h (h.enqueue id m).2 := by
  unfold enqueue
  split
  · next p b hp hb =>
    split_ifs
    · exact .refl h
    · exact .refl h
    · have hf : ∀ b : Mailbox, ({ b with queue := b.queue ++ [m] } : Mailbox).owner = b.owner :=
        fun _ => rfl
      refine ⟨rfl, rfl, List.Sublist.refl _, fun _ => rfl, fun other => ?_,
        fun other => isRead_updateMailbox h id other _ fun _ => ⟨rfl, rfl⟩,
        fun hs => hs.updateMailbox id _ hf⟩
      by_cases e : other = id
      · subst e
        refine ⟨[m], ?_, fun x hx => ⟨rfl, List.mem_singleton.1 hx⟩⟩
        rw [mail_updateMailbox_self hb _ hf, mail, hb]
        rfl
      · refine ⟨[], ?_, fun x hx => absurd hx List.not_mem_nil⟩
        rw [mail_updateMailbox h id other _ hf e, List.append_nil]
  · exact .refl h

/-- A message is in the queue of a peer that there was room for. -/
theorem mem_mail_enqueue {h : Hub} (hs : h.Sound) {p : Peer} (hp : p ∈ h.peers) (m : SyncMessage)
    (hroom : (h.enqueue p.id m).1 = false) : m ∈ (h.enqueue p.id m).2.mail p.id := by
  obtain ⟨b, hb, hr⟩ := hs.mailbox p hp
  have hf : ∀ b : Mailbox, ({ b with queue := b.queue ++ [m] } : Mailbox).owner = b.owner :=
    fun _ => rfl
  revert hroom
  simp only [enqueue, hs.peer?_of_mem hp, hb, hr, Bool.not_true, Bool.false_eq_true, if_false]
  split_ifs
  · simp
  · intro _
    rw [mail_updateMailbox_self hb _ hf]
    exact List.mem_append_right _ (List.mem_singleton_self m)

/-- Presence is all that a disconnection tells of. -/
def IsPresence : SyncMessage → Prop
  | .awareness _ _ _ => True
  | _ => False

section Dropping

variable {drop : Hub → Nat → Hub} (hdrop : ∀ h id, Sends (fun _ m => IsPresence m) h (drop h id))

include hdrop

theorem sends_sendOr (m : SyncMessage) (h : Hub) (id : Nat) :
    Sends (fun i x => IsPresence x ∨ i = id ∧ x = m) h (sendOr drop m h id) := by
  have he : Sends (fun i x => IsPresence x ∨ i = id ∧ x = m) h (h.enqueue id m).2 :=
    (sends_enqueue h id m).mono fun _ _ hx => .inr hx
  unfold sendOr
  split
  · next h' e =>
    rw [e] at he
    exact he.trans ((hdrop h' id).mono fun _ _ hx => .inl hx)
  · next h' e =>
    rw [e] at he
    exact he

theorem sends_foldl_sendOr (m : SyncMessage) (ids : List Nat) (h : Hub) :
    Sends (fun i x => IsPresence x ∨ i ∈ ids ∧ x = m) h (ids.foldl (sendOr drop m) h) := by
  induction ids generalizing h with
  | nil => exact .refl h
  | cons a r ih =>
    refine ((sends_sendOr hdrop m h a).mono fun i x hx => ?_).trans ((ih _).mono fun i x hx => ?_)
    · exact hx.imp_right fun ⟨hi, hm⟩ => ⟨hi ▸ List.mem_cons_self .., hm⟩
    · exact hx.imp_right fun ⟨hi, hm⟩ => ⟨List.mem_cons_of_mem _ hi, hm⟩

theorem sends_broadcastOr (doc : String) (sender : Nat) (m : SyncMessage) (h : Hub) :
    Sends (fun i x => IsPresence x ∨ i ≠ sender ∧ x = m) h (broadcastOr drop doc sender m h) := by
  refine (sends_foldl_sendOr hdrop m _ h).mono fun i x hx => hx.imp_right fun ⟨hi, hm⟩ => ⟨?_, hm⟩
  simpa using (List.mem_filter.1 hi).2

end Dropping

theorem sends_disconnectWithin (depth : Nat) (h : Hub) (id : Nat) :
    Sends (fun _ m => IsPresence m) h (disconnectWithin depth h id) := by
  induction depth generalizing h id with
  | zero => exact .refl h
  | succ depth ih =>
    unfold disconnectWithin
    split
    · exact .refl h
    · next p _ =>
      have hf : Sends (fun _ m => IsPresence m) h (h.forget p) :=
        (sends_forget h p).mono fun _ _ hx => hx.elim
      dsimp only
      split
      · exact hf
      · next a _ =>
        have ha : Sends (fun _ m => IsPresence m) (h.forget p) { h.forget p with awareness := a } :=
          (sends_awareness (h.forget p) a).mono fun _ _ hx => hx.elim
        refine hf.trans (ha.trans ((sends_broadcastOr ih _ _ _ _).mono fun _ _ hx => ?_))
        rcases hx with hx | ⟨-, rfl⟩
        · exact hx
        · trivial

theorem sends_disconnect (h : Hub) (id : Nat) :
    Sends (fun _ m => IsPresence m) h (h.disconnect id) :=
  sends_disconnectWithin _ h id

theorem sends_send (h : Hub) (id : Nat) (m : SyncMessage) :
    Sends (fun i x => IsPresence x ∨ i = id ∧ x = m) h (h.send id m) :=
  sends_sendOr sends_disconnect m h id

theorem sends_broadcast (h : Hub) (doc : String) (sender : Nat) (m : SyncMessage) :
    Sends (fun i x => IsPresence x ∨ i ≠ sender ∧ x = m) h (h.broadcast doc sender m) :=
  sends_broadcastOr sends_disconnect doc sender m h

/-! ### Whom a message reaches -/

theorem peer?_disconnect (h : Hub) (id : Nat) : (h.disconnect id).peer? id = none := by
  cases hp : h.peer? id with
  | none =>
    have hgone : ∀ q ∈ h.peers, q.id ≠ id := by simpa [peer?] using hp
    refine List.find?_eq_none.2 fun q hq => ?_
    simpa using hgone q (peers_disconnectWithin _ h id hq)
  | some p =>
    obtain ⟨hm, rfl⟩ := peer?_eq_some hp
    obtain ⟨depth, hd⟩ := Nat.exists_eq_add_one_of_ne_zero (Nat.pos_iff_ne_zero.1 (List.length_pos_of_mem hm))
    have hgone : ∀ q ∈ (h.forget p).peers, q.id ≠ p.id := by simp [forget]
    have hsub : (h.disconnect p.id).peers.Sublist (h.forget p).peers := by
      unfold disconnect
      rw [hd]
      unfold disconnectWithin
      rw [hp]
      dsimp only
      split
      · exact List.Sublist.refl _
      · next a _ =>
        exact (sends_broadcastOr (sends_disconnectWithin depth) p.doc p.id _ { h.forget p with awareness := a }).peers
    refine List.find?_eq_none.2 fun q hq => ?_
    simpa using hgone q (hsub.subset hq)

/-- Whoever is connected after a message was sent to it has been sent it. -/
theorem mem_mail_send {h : Hub} (hs : h.Sound) {id : Nat} {p : Peer} (m : SyncMessage)
    (hp : (h.send id m).peer? id = some p) : m ∈ (h.send id m).mail id := by
  obtain ⟨hmem, rfl⟩ := peer?_eq_some ((sends_send h id m).peer?_eq hs.toOrderly hp)
  revert hp
  unfold send sendOr
  split
  · next h' e =>
    intro hp
    rw [peer?_disconnect] at hp
    cases hp
  · next h' e =>
    intro _
    have hroom := mem_mail_enqueue hs hmem m (by rw [e])
    rwa [e] at hroom

theorem mem_mail_foldl_send {h : Hub} (hs : h.Sound) (m : SyncMessage) {ids : List Nat} {id : Nat}
    (hid : id ∈ ids) {p : Peer} (hp : (ids.foldl (sendOr disconnect m) h).peer? id = some p) :
    m ∈ (ids.foldl (sendOr disconnect m) h).mail id := by
  induction ids generalizing h with
  | nil => cases hid
  | cons a r ih =>
    have ha := sends_send h a m
    have hr := sends_foldl_sendOr sends_disconnect m r (h.send a m)
    rcases List.mem_cons.1 hid with rfl | hid
    · exact hr.mem_mail (mem_mail_send hs m (hr.peer?_eq (ha.sound hs).toOrderly hp))
    · exact ih (ha.sound hs) hid hp

/-- Whoever is connected to a document after a broadcast on it has been sent it, but for the sender. -/
theorem mem_mail_broadcast {h : Hub} (hs : h.Sound) {doc : String} {sender : Nat} {m : SyncMessage}
    {p : Peer} {id : Nat} (hp : (h.broadcast doc sender m).peer? id = some p) (hdoc : p.doc = doc)
    (hne : id ≠ sender) : m ∈ (h.broadcast doc sender m).mail id := by
  obtain ⟨hmem, rfl⟩ := peer?_eq_some ((sends_broadcast h doc sender m).peer?_eq hs.toOrderly hp)
  refine mem_mail_foldl_send hs m (List.mem_filter.2 ⟨?_, by simpa using hne⟩) hp
  exact (hs.member p hmem doc).2 hdoc.symm

end SecureLayout.Collab.Hub
