import SecureLayout.Proofs.Collab.Listening

/-!
Peers that only listen, whatever the other peers do. Main statement: in every run of a relay a document
that takes in what was put into the queue of such a peer since it connected holds what the relay holds,
once the peer has announced itself.
-/

namespace SecureLayout.Collab

open Wire (FieldUpdate SyncMessage)

/-- What can happen at a relay. -/
inductive Event where
  | connect (doc client : String)
  | handle (id : Nat) (m : SyncMessage)
  | disconnect (id : Nat)
  /-- The next message in a queue is read. -/
  | read (id : Nat)
  /-- A queue is not read any more. -/
  | abandon (id : Nat)

/-- A relay and what went on at it so far. -/
structure History where
  hub : Hub
  /-- Messages of a peer that were handled while it was connected. -/
  said : Nat → List SyncMessage := fun _ => []
  /-- Messages that were read from a peer's queue. -/
  heard : Nat → List SyncMessage := fun _ => []

namespace Hub

variable {h : Hub} {i id : Nat} {m : SyncMessage}

/-! ### What handling a message comes to -/

theorem handle_cases (h : Hub) (id : Nat) (m : SyncMessage) :
    (Sends (fun _ m => IsBare m) h (h.handle id m) ∧ ∀ p c, h.peer? id = some p → m ≠ .hello p.doc c) ∨
    (∃ p c, h.peer? id = some p ∧ m = .hello p.doc c ∧ h.handle id m = h.welcome p) ∨
    ∃ p seq u, h.peer? id = some p ∧ m = .update p.doc seq u ∧
      (Sends (fun _ m => IsBare m) (h.bind p.id u.clock.replica) (h.handle id m) ∨
        h.handle id m = (h.bind p.id u.clock.replica).acceptUpdate p seq u) := by
  cases hp : h.peer? id with
  | none =>
    refine .inl ⟨?_, fun p c hp' => by cases hp'⟩
    rw [handle_of_peer?_eq_none hp]
    exact .refl h
  | some p =>
    unfold handle
    rw [hp]
    dsimp only
    split
    · next hother =>
      refine .inl ⟨sends_refuse h id _, ?_⟩
      rintro p' c hp' rfl
      cases hp'
      simp [SyncMessage.doc?] at hother
    · next hown =>
      cases m with
      | hello d c =>
        have hd : d = p.doc := by simpa [SyncMessage.doc?] using hown
        exact .inr (.inl ⟨p, c, rfl, by rw [hd], rfl⟩)
      | update d seq u =>
        have hd : d = p.doc := by simpa [SyncMessage.doc?] using hown
        dsimp only
        unfold receiveUpdate
        split
        · refine .inl ⟨sends_refuseUpdate h p seq _, ?_⟩
          intros
          rintro ⟨⟩
        · refine .inr (.inr ⟨p, seq, u, rfl, by rw [hd], ?_⟩)
          dsimp only
          split
          · exact .inr rfl
          · exact .inl (sends_refuseUpdate _ p seq _)
      | awareness d c s =>
        refine .inl ⟨(sends_receiveAwareness h p s).mono fun _ _ hx => hx.isBare, ?_⟩
        intros
        rintro ⟨⟩
      | _ =>
        refine .inl ⟨sends_refuse h id _, ?_⟩
        intros
        rintro ⟨⟩

theorem Orderly.bind (hs : h.Orderly) (id : Nat) (r : String) : (h.bind id r).Orderly := by
  have hmem : ∀ q ∈ (h.bind id r).peers, ∃ q' ∈ h.peers, q'.id = q.id ∧ q'.doc = q.doc := by
    intro q hq
    obtain ⟨q', hq', rfl⟩ := List.mem_map.1 hq
    refine ⟨q', hq', ?_⟩
    split <;> exact ⟨rfl, rfl⟩
  refine ⟨fun q hq => ?_, hs.owners, hs.memberIds, ?_, hs.nodup, fun q hq doc => ?_⟩
  · obtain ⟨q', hq', he, -⟩ := hmem q hq
    exact he ▸ hs.peerIds q' hq'
  · refine List.pairwise_map.2 (hs.distinct.imp fun {a b} hab => ?_)
    split_ifs <;> exact hab
  · obtain ⟨q', hq', he, hd⟩ := hmem q hq
    rw [← he, ← hd]
    exact hs.member q' hq' doc

theorem isClosed_bind (h : Hub) (id : Nat) (r : String) (i : Nat) :
    (h.bind id r).isClosed i = h.isClosed i := by
  refine isClosed_congr ?_ rfl
  rw [peer?_bind, Option.isNone_map]

theorem peer?_of_bind {r : String} {q : Peer} (hq : (h.bind id r).peer? i = some q) :
    ∃ p, h.peer? i = some p ∧ p.doc = q.doc := by
  rw [peer?_bind] at hq
  obtain ⟨p, hp, rfl⟩ := Option.map_eq_some_iff.1 hq
  refine ⟨p, hp, ?_⟩
  split <;> rfl

theorem Orderly.mail_eq_nil (hs : h.Orderly) (hi : h.nextPeer ≤ i) : h.mail i = [] := by
  unfold mail
  cases hb : h.mailbox? i with
  | none => rfl
  | some b =>
    have ho : b.owner = i := by simpa using List.find?_some hb
    exact absurd (hs.owners b (List.mem_of_find?_eq_some hb)) (by omega)

theorem Orderly.handle (hs : h.Orderly) (id : Nat) (m : SyncMessage) : (h.handle id m).Orderly := by
  rcases handle_cases h id m with ⟨hsends, -⟩ | ⟨p, c, -, -, he⟩ | ⟨p, seq, u, -, -, hsends | he⟩
  · exact hsends.orderly hs
  · rw [he]
    exact (sends_welcome h p).orderly hs
  · exact hsends.orderly (hs.bind p.id _)
  · rw [he]
    exact (sends_acceptUpdate h p seq u).orderly (hs.taken p u)

theorem nextPeer_handle (h : Hub) (id : Nat) (m : SyncMessage) : (h.handle id m).nextPeer = h.nextPeer := by
  rcases handle_cases h id m with ⟨hsends, -⟩ | ⟨p, c, -, -, he⟩ | ⟨p, seq, u, -, -, hsends | he⟩
  · exact hsends.nextPeer
  · rw [he]
    exact (sends_welcome h p).nextPeer
  · exact hsends.nextPeer
  · rw [he]
    exact (sends_acceptUpdate h p seq u).nextPeer

/-- A message makes of a document what one merge makes of it, or nothing. -/
theorem replica_handle (h : Hub) (id : Nat) (m : SyncMessage) (doc : String) :
    (h.handle id m).replica doc = h.replica doc ∨
      ∃ u, (h.handle id m).replica doc = ((h.replica doc).merge u).2 := by
  rcases handle_cases h id m with ⟨hsends, -⟩ | ⟨p, c, -, -, he⟩ | ⟨p, seq, u, -, -, hsends | he⟩
  · exact .inl (hsends.document doc)
  · rw [he]
    exact .inl ((sends_welcome h p).document doc)
  · exact .inl (hsends.document doc)
  · have hd : (h.handle id m).replica doc = (h.taken p u).replica doc := by
      rw [he]
      exact (sends_acceptUpdate h p seq u).document doc
    rw [hd]
    by_cases hdoc : doc = p.doc
    · exact .inr ⟨u, by rw [hdoc, replica_taken]⟩
    · refine .inl ?_
      rw [replica, room_taken, if_neg hdoc]
      rfl

/-- Whatever is handled, an open queue whose peer does not write tells what becomes of its document, and
all of it if the peer announced itself. -/
theorem informs_handle (hs : h.Orderly) (ho : (h.handle id m).isClosed i = false)
    (hlistens : i = id → ∀ d seq u, m ≠ .update d seq u) {q : Peer} (hq : (h.handle id m).peer? i = some q) :
    ∃ p us, h.peer? i = some p ∧ p.doc = q.doc ∧ h.isClosed i = false ∧
      Informs i q.doc h (h.handle id m) us ∧
      (i = id → ∀ c, m = .hello q.doc c →
        us = (h.replica q.doc).snapshot ∧ (h.handle id m).replica q.doc = h.replica q.doc) := by
  rcases handle_cases h id m with ⟨hsends, hno⟩ | ⟨p, c, hp, rfl, he⟩ | ⟨p, seq, u, hp, rfl, hcase⟩
  · have hbefore := hsends.peer?_eq hs hq
    refine ⟨q, [], hbefore, rfl, hsends.isClosed_before hs ho, hsends.informs (fun _ hm => hm) q.doc, ?_⟩
    rintro rfl c hc
    exact absurd hc (hno q c hbefore)
  · obtain ⟨-, rfl⟩ := peer?_eq_some hp
    rw [he] at ho hq ⊢
    have hsends := sends_welcome h p
    have hbefore := hsends.peer?_eq hs hq
    have hdoc : i = p.id → q.doc = p.doc := by
      rintro rfl
      rw [hp] at hbefore
      cases hbefore
      rfl
    refine ⟨q, _, hbefore, rfl, hsends.isClosed_before hs ho, informs_welcome hs ho q.doc hdoc, ?_⟩
    intro hi c' _
    exact ⟨if_pos hi, hsends.document q.doc⟩
  · obtain ⟨-, rfl⟩ := peer?_eq_some hp
    have hi : i ≠ p.id := fun hi => hlistens hi _ _ _ rfl
    rcases hcase with hsends | he
    · obtain ⟨p', hp', hd⟩ := peer?_of_bind (hsends.peer?_eq (hs.bind p.id _) hq)
      have hopen := hsends.isClosed_before (hs.bind p.id _) ho
      rw [isClosed_bind] at hopen
      have hinforms := hsends.informs (i := i) (fun _ hm => hm) q.doc
      exact ⟨p', [], hp', hd, hopen, ⟨hinforms.tells, hinforms.mail⟩, fun he => absurd he hi⟩
    · rw [he] at ho hq ⊢
      have hsends := sends_acceptUpdate h p seq u
      obtain ⟨p', hp', hd⟩ := peer?_of_bind (h := h) (hsends.peer?_eq (hs.taken p u) hq)
      have hopen := hsends.isClosed_before (hs.taken p u) ho
      rw [isClosed_taken] at hopen
      obtain ⟨us, hinforms⟩ := informs_acceptUpdate hs hi hq ho
      exact ⟨p', us, hp', hd, hopen, hinforms, fun he => absurd he hi⟩

end Hub

namespace History

def next (t : History) : Event → History
  | .connect doc client =>
    match t.hub.connect doc client with
    | .ok (_, hub) => { t with hub }
    | .error _ => t
  | .handle id m =>
    let said := if (t.hub.peer? id).isSome then Function.update t.said id (t.said id ++ [m]) else t.said
    { t with hub := t.hub.handle id m, said }
  | .disconnect id => { t with hub := t.hub.disconnect id }
  | .read id =>
    match t.hub.takeNext id with
    | some (m, hub) => { t with hub, heard := Function.update t.heard id (t.heard id ++ [m]) }
    | none => t
  | .abandon id => { t with hub := t.hub.abandon id }

/-- A relay that starts without documents and peers, after some events. -/
def after (policy : SecurityPolicy) (events : List Event) : History :=
  events.foldl next { hub := { policy } }

/-- All that was put into the queue of a peer since it connected, in order. -/
def enqueued (t : History) (id : Nat) : List SyncMessage :=
  t.heard id ++ t.hub.mail id

/-- What a document that was empty makes of all writes sent to a peer. -/
def copy (t : History) (replica : String) (id : Nat) : Document :=
  Document.mergeAll { replica } (writesIn (t.enqueued id))

/-- A peer whose queue is read and that never wrote. -/
structure Listens (t : History) (id : Nat) (p : Peer) : Prop where
  connected : t.hub.peer? id = some p
  isOpen : t.hub.isClosed id = false
  silent : ∀ d seq u, .update d seq u ∉ t.said id

/-- A peer asked for its document. -/
def Announced (t : History) (id : Nat) (doc : String) : Prop :=
  ∃ client, .hello doc client ∈ t.said id

/-- What is the case at a relay after any number of events. -/
structure Settled (replica : String) (t : History) : Prop where
  orderly : t.hub.Orderly
  grounded : ∀ doc, (t.hub.replica doc).Grounded
  unused : ∀ id, t.hub.nextPeer ≤ id → t.said id = [] ∧ t.heard id = []
  keeps : ∀ id p, t.Listens id p →
    Document.Keeps (t.Announced id p.doc) (t.copy replica id) (t.hub.replica p.doc)

variable {replica : String} {t t' : History} {id : Nat} {p p' : Peer}

theorem grounded_copy (t : History) (replica : String) (id : Nat) : (t.copy replica id).Grounded :=
  (Document.Grounded.fresh replica).mergeAll _

theorem copy_congr (h : writesIn (t'.enqueued id) = writesIn (t.enqueued id)) :
    t'.copy replica id = t.copy replica id := by
  rw [copy, h, copy]

theorem copy_append {us : List FieldUpdate} (hheard : t'.heard id = t.heard id)
    (hmail : writesIn (t'.hub.mail id) = writesIn (t.hub.mail id) ++ us) :
    t'.copy replica id = (t.copy replica id).mergeAll us := by
  unfold copy enqueued Document.mergeAll
  rw [hheard, writesIn_append, hmail, ← List.append_assoc, List.foldl_append, writesIn_append]

/-- Nothing changes for a listener whose document stays and who is sent no writes. -/
theorem Settled.keeps_of_same (s : t.Settled replica) (hl : t'.Listens id p) (hp : t.hub.peer? id = some p)
    (ho : t.hub.isClosed id = false) (hsaid : t'.said id = t.said id)
    (hwrites : writesIn (t'.enqueued id) = writesIn (t.enqueued id))
    (hd : t'.hub.replica p.doc = t.hub.replica p.doc) :
    Document.Keeps (t'.Announced id p.doc) (t'.copy replica id) (t'.hub.replica p.doc) := by
  have hk := s.keeps id p ⟨hp, ho, hsaid ▸ hl.silent⟩
  rw [copy_congr hwrites, hd]
  unfold Announced at hk ⊢
  rw [hsaid]
  exact hk

theorem Settled.start (policy : SecurityPolicy) (replica : String) :
    Settled replica { hub := { policy } } where
  orderly := .empty policy
  grounded _ := .fresh relayReplica
  unused _ _ := ⟨rfl, rfl⟩
  keeps id p hl := by
    have hp := hl.connected
    cases hp

/-! ### One event -/

/-- Dropping peers and sending presence is nothing to a listener. -/
theorem Settled.sends (s : t.Settled replica) {allowed : Nat → SyncMessage → Prop} {h' : Hub}
    (hsends : Hub.Sends allowed t.hub h') (hbare : ∀ i m, allowed i m → IsBare m) :
    Settled replica { t with hub := h' } := by
  refine ⟨hsends.orderly s.orderly, fun doc => ?_, fun id hid => ?_, fun id p hl => ?_⟩
  · have hd : h'.replica doc = t.hub.replica doc := hsends.document doc
    rw [hd]
    exact s.grounded doc
  · rw [hsends.nextPeer] at hid
    exact s.unused id hid
  · refine s.keeps_of_same hl (hsends.peer?_eq s.orderly hl.connected)
      (hsends.isClosed_before s.orderly hl.isOpen) rfl ?_ (hsends.document p.doc)
    unfold enqueued
    rw [writesIn_append, writesIn_append, hsends.writesIn_mail (hbare id)]

theorem Settled.connect (s : t.Settled replica) {doc client : String} {new : Nat} {h' : Hub}
    (hc : t.hub.connect doc client = .ok (new, h')) : Settled replica { t with hub := h' } := by
  obtain ⟨hnew, hh⟩ := Hub.connect_eq_ok hc
  have hreplica : ∀ d, h'.replica d = t.hub.replica d := by
    intro d
    unfold Hub.replica
    rw [Hub.room_connect hc]
    split
    · next e => rw [e]
    · rfl
  have hnext : h'.nextPeer = t.hub.nextPeer + 1 := by rw [hh, hnew]
  refine ⟨s.orderly.connect hc, fun d => ?_, fun id hid => ?_, fun id p hl => ?_⟩
  · rw [hreplica]
    exact s.grounded d
  · change h'.nextPeer ≤ id at hid
    exact s.unused id (by omega)
  · have hp := hl.connected
    rw [Hub.peer?_connect s.orderly hc] at hp
    have hmail := Hub.mail_connect s.orderly hc id
    by_cases hi : id = new
    · obtain ⟨hsaid, hheard⟩ := s.unused id (by omega)
      rw [if_pos hi] at hmail
      have hcopy : History.copy { t with hub := h' } replica id = { replica } := by
        unfold copy enqueued
        rw [hmail, hheard]
        rfl
      refine ⟨?_, ?_⟩
      · rw [hcopy]
        exact .of_fresh replica _
      · rintro ⟨c, hmem⟩
        rw [hsaid] at hmem
        cases hmem
    · rw [if_neg hi] at hp hmail
      have ho : t.hub.isClosed id = false := by
        rw [← hl.isOpen]
        refine Hub.isClosed_congr ?_ ?_
        · rw [hp, hl.connected]
        · rw [Hub.mailbox?_connect s.orderly hc, if_neg hi]
      refine s.keeps_of_same hl hp ho rfl ?_ (hreplica p.doc)
      unfold enqueued
      rw [hmail]

theorem said_handle_of_ne {i : Nat} (hi : i ≠ id) (m : SyncMessage) :
    (t.next (.handle id m)).said i = t.said i := by
  unfold next
  dsimp only
  split
  · exact Function.update_of_ne hi ..
  · rfl

theorem said_handle (hp : t.hub.peer? id = some p) (m : SyncMessage) :
    (t.next (.handle id m)).said id = t.said id ++ [m] := by
  unfold next
  dsimp only
  rw [hp, Option.isSome_some, if_pos rfl]
  exact Function.update_self ..

theorem Settled.keeps_handle (s : t.Settled replica) {i : Nat} {m : SyncMessage} {q : Peer}
    (hl : (t.next (.handle id m)).Listens i q) :
    Document.Keeps ((t.next (.handle id m)).Announced i q.doc) ((t.next (.handle id m)).copy replica i)
      ((t.next (.handle id m)).hub.replica q.doc) := by
  have hconnected : ∃ p, i = id → t.hub.peer? id = some p := by
    cases hp : t.hub.peer? id with
    | some p => exact ⟨p, fun _ => rfl⟩
    | none =>
      refine ⟨q, fun hi => ?_⟩
      have hq := hl.connected
      change (t.hub.handle id m).peer? i = some q at hq
      rwa [handle_of_peer?_eq_none hp, hi, hp] at hq
  obtain ⟨r, hr⟩ := hconnected
  have hsilent : i = id → ∀ d seq u, m ≠ .update d seq u := by
    rintro rfl d seq u rfl
    refine hl.silent d seq u ?_
    rw [said_handle (hr rfl)]
    exact List.mem_append_right _ (List.mem_singleton_self _)
  obtain ⟨p, us, hp, hdoc, ho, hinforms, hall⟩ :=
    Hub.informs_handle s.orderly hl.isOpen hsilent hl.connected
  have hsub : ∀ x ∈ t.said i, x ∈ (t.next (.handle id m)).said i := by
    intro x hx
    by_cases hi : i = id
    · subst hi
      rw [said_handle (hr rfl)]
      exact List.mem_append_left _ hx
    · rwa [said_handle_of_ne hi]
  have hkeeps := s.keeps i p ⟨hp, ho, fun d seq u hmem => hl.silent d seq u (hsub _ hmem)⟩
  have hcopy : (t.next (.handle id m)).copy replica i = (t.copy replica i).mergeAll us :=
    copy_append rfl hinforms.mail
  have hgrounded := grounded_copy t replica i
  rw [hdoc] at hkeeps
  by_cases hhello : i = id ∧ ∃ c, m = .hello q.doc c
  · obtain ⟨hi, c, hm⟩ := hhello
    obtain ⟨rfl, hreplica⟩ := hall hi c hm
    have heverything := hkeeps.everything (s.grounded q.doc) hgrounded
    change Document.Keeps _ _ ((t.hub.handle id m).replica q.doc)
    rw [hcopy, hreplica]
    exact ⟨heverything.behind, fun _ => heverything.winners trivial⟩
  · have hannounced : (t.next (.handle id m)).Announced i q.doc → t.Announced i q.doc := by
      rintro ⟨c, hc⟩
      by_cases hi : i = id
      · subst hi
        rw [said_handle (hr rfl), List.mem_append, List.mem_singleton] at hc
        rcases hc with hc | rfl
        · exact ⟨c, hc⟩
        · exact absurd ⟨rfl, c, rfl⟩ hhello
      · rw [said_handle_of_ne hi] at hc
        exact ⟨c, hc⟩
    have hafter := hinforms.tells.keeps (s.grounded q.doc) hgrounded hkeeps
    rw [hcopy]
    exact ⟨hafter.behind, fun h => hafter.winners (hannounced h)⟩

theorem Settled.handle (s : t.Settled replica) (id : Nat) (m : SyncMessage) :
    (t.next (.handle id m)).Settled replica := by
  refine ⟨s.orderly.handle id m, fun doc => ?_, fun i hi => ?_, fun i q hl => s.keeps_handle hl⟩
  · rcases Hub.replica_handle t.hub id m doc with hd | ⟨u, hd⟩
    · exact hd ▸ s.grounded doc
    · exact hd ▸ (s.grounded doc).merge u
  · change (t.hub.handle id m).nextPeer ≤ i at hi
    rw [Hub.nextPeer_handle] at hi
    obtain ⟨hsaid, hheard⟩ := s.unused i hi
    refine ⟨?_, hheard⟩
    by_cases he : i = id
    · subst he
      unfold next
      dsimp only
      have hnone : t.hub.peer? i = none := by
        cases hp : t.hub.peer? i with
        | none => rfl
        | some p =>
          obtain ⟨hmem, rfl⟩ := Hub.peer?_eq_some hp
          exact absurd (s.orderly.peerIds p hmem) (not_lt.2 hi)
      rw [hnone]
      exact hsaid
    · rw [said_handle_of_ne he]
      exact hsaid

theorem Settled.read (s : t.Settled replica) (id : Nat) : (t.next (.read id)).Settled replica := by
  unfold next
  dsimp only
  split
  · next m h' ht =>
    obtain ⟨r, hmail, rfl⟩ := Hub.takeNext_eq_some ht
    have hf : ∀ b : Mailbox, ({ b with queue := r } : Mailbox).owner = b.owner := fun _ => rfl
    refine ⟨s.orderly.updateMailbox id _ hf, s.grounded, fun i hi => ?_, fun i p hl => ?_⟩
    · obtain ⟨hsaid, hheard⟩ := s.unused i hi
      refine ⟨hsaid, ?_⟩
      have he : i ≠ id := by
        rintro rfl
        rw [s.orderly.mail_eq_nil hi] at hmail
        cases hmail
      exact (Function.update_of_ne he ..).trans hheard
    · have hsame : (t.hub.updateMailbox id fun b => { b with queue := r }).isClosed i = t.hub.isClosed i :=
        Hub.isClosed_congr rfl (Hub.isRead_updateMailbox t.hub id i _ fun _ => ⟨rfl, rfl⟩)
      have ho : t.hub.isClosed i = false := hsame.symm.trans hl.isOpen
      refine s.keeps_of_same hl hl.connected ho rfl ?_ rfl
      unfold enqueued
      by_cases he : i = id
      · subst he
        dsimp only
        rw [Function.update_self, List.append_assoc]
        exact congrArg (fun q => writesIn (t.heard i ++ q)) (Hub.mail_takeNext ht).symm
      · dsimp only
        rw [Function.update_of_ne he, Hub.mail_updateMailbox t.hub id i _ hf he]
  · exact s

theorem Settled.abandon (s : t.Settled replica) (id : Nat) : (t.next (.abandon id)).Settled replica := by
  have hf : ∀ b : Mailbox, ({ b with queue := [], isRead := false } : Mailbox).owner = b.owner := fun _ => rfl
  refine ⟨s.orderly.updateMailbox id _ hf, s.grounded, s.unused, fun i p hl => ?_⟩
  have hbox := Hub.mailbox?_updateMailbox t.hub id i _ hf
  obtain ⟨-, b, hb, hr⟩ := Hub.isClosed_eq_false.1 hl.isOpen
  change (t.hub.abandon id).mailbox? i = some b at hb
  by_cases he : i = id
  · rw [Hub.abandon, hbox, if_pos he] at hb
    obtain ⟨a, -, rfl⟩ := Option.map_eq_some_iff.1 hb
    cases hr
  · rw [if_neg he] at hbox
    have ho : t.hub.isClosed i = false := by
      rw [← hl.isOpen]
      refine Hub.isClosed_congr rfl ?_
      change (t.hub.mailbox? i).map _ = ((t.hub.abandon id).mailbox? i).map _
      rw [Hub.abandon, hbox]
    refine s.keeps_of_same hl hl.connected ho rfl ?_ rfl
    unfold enqueued next Hub.abandon
    dsimp only
    rw [Hub.mail_updateMailbox t.hub id i _ hf he]

theorem Settled.next (s : t.Settled replica) (e : Event) : (t.next e).Settled replica := by
  cases e with
  | connect doc client =>
    unfold History.next
    dsimp only
    split
    · next hc => exact s.connect hc
    · exact s
  | handle id m => exact s.handle id m
  | disconnect id => exact s.sends (Hub.sends_disconnect t.hub id) fun _ _ hm => hm.isBare
  | read id => exact s.read id
  | abandon id => exact s.abandon id

theorem settled_after (policy : SecurityPolicy) (events : List Event) (replica : String) :
    (after policy events).Settled replica := by
  have hrun : ∀ t : History, t.Settled replica → (events.foldl History.next t).Settled replica := by
    induction events with
    | nil => exact fun t s => s
    | cons e r ih => exact fun t s => ih _ (s.next e)
  exact hrun _ (.start policy replica)

/-- Whatever else goes on at a relay, a document that takes in every write sent to a peer which announced
itself and never writes has the entries and the clock that the relay has for the peer's document. -/
theorem listener_mirrors_relay (policy : SecurityPolicy) (events : List Event) (replica : String) {id : Nat}
    {p : Peer} (hl : (after policy events).Listens id p)
    (ha : (after policy events).Announced id p.doc) :
    ((after policy events).copy replica id).entries = ((after policy events).hub.replica p.doc).entries ∧
      ((after policy events).copy replica id).clock = ((after policy events).hub.replica p.doc).clock := by
  have s := settled_after policy events replica
  exact (grounded_copy _ replica id).ext (s.grounded p.doc) ((s.keeps id p hl).winners ha)

/-- One peer listens while another one writes before and after the announcement, and then writes at a
clock that it used already. -/
def watchedWrites : History :=
  after ⟨⟨none⟩, ⟨["output"]⟩, .empty, 10, 1000⟩
    [.connect "d" "ada", .connect "d" "eve", .handle 2 (.update "d" 1 ⟨"f", .null, ⟨1, "e"⟩⟩),
      .handle 1 (.hello "d" "ada"), .handle 2 (.update "d" 2 ⟨"f", .bool true, ⟨2, "e"⟩⟩), .read 1,
      .handle 2 (.update "d" 3 ⟨"f", .bool false, ⟨2, "e"⟩⟩)]

theorem listener_mirrors_relay_replay :
    watchedWrites.Listens 1 ⟨1, "d", "ada", none⟩ ∧ watchedWrites.Announced 1 "d" ∧
      (watchedWrites.hub.replica "d").clock = 2 ∧
      (watchedWrites.copy "ada" 1).entries = (watchedWrites.hub.replica "d").entries ∧
      (watchedWrites.copy "ada" 1).clock = (watchedWrites.hub.replica "d").clock := by
  have hl : watchedWrites.Listens 1 ⟨1, "d", "ada", none⟩ := by
    refine ⟨rfl, rfl, ?_⟩
    have hsaid : watchedWrites.said 1 = [.hello "d" "ada"] := rfl
    intro d seq u hu
    rw [hsaid, List.mem_singleton] at hu
    cases hu
  have ha : watchedWrites.Announced 1 "d" := ⟨"ada", List.mem_singleton_self _⟩
  have hmirrors := listener_mirrors_relay _ _ "ada" hl ha
  exact ⟨hl, ha, rfl, hmirrors⟩

end History

end SecureLayout.Collab
