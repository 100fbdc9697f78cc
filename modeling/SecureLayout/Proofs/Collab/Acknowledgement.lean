import Mathlib.Data.List.Nodup
import SecureLayout.Proofs.Collab.Membership

/-!
What the acknowledgement of a write promises. Main statement: a write is acknowledged once, right after an
error and with nothing changed, or else the relay holds it or a later one in every state from then on, and
passes it on to everybody who is on the document if it is news.
-/

namespace SecureLayout.Collab

open Wire (FieldUpdate SyncMessage)

theorem Document.merge_eq_self_iff {d : Document} (h : d.WellFormed) (u : FieldUpdate) :
    (d.merge u).2 = d ↔ d.isNews u = false := by
  constructor
  · intro he
    rw [← Bool.not_eq_true]
    intro hnews
    have hw := winner?_merge_of_news hnews u.field
    rw [he, if_pos rfl] at hw
    exact lt_irrefl _ ((isNews_iff d u).1 hnews u hw)
  · intro hstale
    obtain ⟨w, hw, hle⟩ := exists_winner_of_stale hstale
    have hmem : (u.field, w) ∈ d.entries := (Entries.get?_eq_some_iff h.sorted _ _).1 hw
    have hclock := le_trans (Wire.Clock.counter_le_of_le hle) (h.bounded _ hmem)
    simp only [merge, hstale, max_eq_left hclock, Bool.false_eq_true, if_false]

/-- A message that says that a write was looked at. -/
def acknowledges (seq : Nat) : SyncMessage → Bool
  | .ack _ s => s == seq
  | _ => false

namespace Hub

variable {h h₁ h' : Hub} {id i : Nat} {m : SyncMessage} {agenda : Agenda} {full : List Nat}

/-! ### Queues with room -/

/-- A message is put into a queue. -/
def queued (h : Hub) (id : Nat) (m : SyncMessage) : Hub :=
  h.updateMailbox id fun b => { b with queue := b.queue ++ [m] }

theorem isClosed_queued (h : Hub) (id : Nat) (m : SyncMessage) (i : Nat) :
    (h.queued id m).isClosed i = h.isClosed i :=
  isClosed_congr rfl (isRead_updateMailbox h id i _ fun _ => ⟨rfl, rfl⟩)

theorem mail_queued (ho : h.isClosed i = false) (id : Nat) (m : SyncMessage) :
    (h.queued id m).mail i = h.mail i ++ if i = id then [m] else [] := by
  have hf : ∀ b : Mailbox, ({ b with queue := b.queue ++ [m] } : Mailbox).owner = b.owner := fun _ => rfl
  obtain ⟨-, b, hb, -⟩ := isClosed_eq_false.1 ho
  split
  · next he =>
    subst he
    rw [queued, mail_updateMailbox_self hb _ hf, mail, hb]
    rfl
  · next hne => rw [queued, mail_updateMailbox h id i _ hf hne, List.append_nil]

theorem mail_queued_of_ne (h : Hub) {id i : Nat} (hne : i ≠ id) (m : SyncMessage) :
    (h.queued id m).mail i = h.mail i :=
  mail_updateMailbox h id i _ (fun _ => rfl) hne

theorem enqueue_of_room (ho : h.isClosed id = false) (hroom : (h.mail id).length < Mailbox.capacity)
    (m : SyncMessage) : h.enqueue id m = (false, h.queued id m) := by
  obtain ⟨⟨p, hp⟩, b, hb, hr⟩ := isClosed_eq_false.1 ho
  have hfull : b.isFull = false := by
    rw [mail, hb] at hroom
    exact decide_eq_false (Nat.not_le.2 hroom)
  simp only [enqueue, hp, hb, hr, hfull, Bool.not_true, Bool.false_eq_true, if_false]
  rfl

/-- A message that there is no need to drop its peer for, in an open queue. -/
theorem enqueue_eq_false (ho : h.isClosed i = false) (he : h.enqueue id m = (false, h₁)) :
    h₁.mail i = h.mail i ++ (if i = id then [m] else []) ∧ h₁.isClosed i = false := by
  unfold enqueue at he
  split at he
  · next p b hp hb =>
    split at he
    · next hr =>
      cases he
      have hne : i ≠ id := by
        rintro rfl
        obtain ⟨-, b', hb', hr'⟩ := isClosed_eq_false.1 ho
        rw [hb] at hb'
        cases hb'
        simp [hr'] at hr
      rw [if_neg hne, List.append_nil]
      exact ⟨rfl, ho⟩
    · split at he
      · cases he
      · cases he
        exact ⟨mail_queued ho id m, (isClosed_queued h id m i).trans ho⟩
  · next hno =>
    cases he
    have hne : i ≠ id := by
      rintro rfl
      obtain ⟨⟨p, hp⟩, b, hb, -⟩ := isClosed_eq_false.1 ho
      exact hno p b hp hb
    rw [if_neg hne, List.append_nil]
    exact ⟨rfl, ho⟩

/-- If no queue is too full an open one has what was sent to its peer, and nothing else. -/
theorem Delivers.mail_of_room (d : Delivers h agenda [] h') (ho : h.isClosed i = false) :
    h'.mail i = h.mail i ++ (agenda.filter (·.1 == i)).map (·.2) := by
  generalize hnone : ([] : List Nat) = full at d
  induction d with
  | done h => exact (List.append_nil _).symm
  | @queued h h₁ h' id m rest full he _ ih =>
    obtain ⟨hmail, hopen⟩ := enqueue_eq_false ho he
    rw [ih hopen hnone, hmail, List.append_assoc]
    congr 1
    by_cases hi : i = id
    · simp [hi]
    · simp [hi, Ne.symm hi]
  | overflowed => cases hnone

/-! ### Who is told -/

/-- Notices are for those who are on the document, once each. -/
theorem filter_notices (hs : h.Orderly) {q : Peer} (hq : h.peer? i = some q) (doc : String) (sender : Nat)
    (m : SyncMessage) :
    ((h.notices doc sender m).filter (·.1 == i)).map (·.2) =
      if q.doc = doc ∧ i ≠ sender then [m] else [] := by
  obtain ⟨hmem, rfl⟩ := peer?_eq_some hq
  have hin : q.id ∈ (h.room doc).members.filter (· != sender) ↔ q.doc = doc ∧ q.id ≠ sender := by
    rw [List.mem_filter, hs.member q hmem doc, bne_iff_ne, eq_comm]
  have hnodup := (hs.nodup doc).filter (· != sender)
  have hcomp : (fun x : Nat × SyncMessage => x.1 == q.id) ∘ (·, m) = (· == q.id) := rfl
  rw [notices, List.filter_map, List.map_map, hcomp, List.filter_beq]
  split
  · next h => rw [List.count_eq_one_of_mem hnodup (hin.2 h)]; rfl
  · next h => rw [List.count_eq_zero.2 (mt hin.1 h)]; rfl

theorem doc_of_mem_notices (hs : h.Orderly) {doc : String} {sender : Nat} {x : Nat × SyncMessage}
    (hx : x ∈ h.notices doc sender m) {q : Peer} (hq : h.peer? x.1 = some q) : q.doc = doc := by
  obtain ⟨i, hi, rfl⟩ := List.mem_map.1 hx
  obtain ⟨hmem, he⟩ := peer?_eq_some hq
  have hmember := (List.mem_filter.1 hi).1
  exact ((hs.member q hmem doc).1 (he ▸ hmember)).symm

/-- Those who are told of the end of a connection are on its document. -/
theorem doc_of_mem_dropped (hs : h.Orderly) {p q : Peer} (hp : h.peer? id = some p) {x : Nat × SyncMessage}
    (hx : x ∈ (h.dropped id).2) (hq : (h.dropped id).1.peer? x.1 = some q) : q.doc = p.doc := by
  have hforget := (sends_forget h p).orderly hs
  unfold dropped at hx hq
  rw [hp] at hx hq
  dsimp only at hx hq
  split at hx
  · cases hx
  · next awareness hl =>
    rw [hl] at hq
    exact doc_of_mem_notices hforget hx hq

/-- Where all is meant for one document, no queue of another one is ever too full. -/
theorem Delivers.full_on {doc : String} (d : Delivers h agenda full h') (hs : h.Orderly)
    (hagenda : ∀ x ∈ agenda, ∀ p, h.peer? x.1 = some p → p.doc = doc) :
    ∀ i ∈ full, ∃ p, h.peer? i = some p ∧ p.doc = doc := by
  induction d with
  | done h => exact fun i hi => absurd hi List.not_mem_nil
  | @queued h h₁ h' id m rest full he _ ih =>
    have hone := sends_enqueue h id m
    rw [he] at hone
    intro i hi
    obtain ⟨p, hp, hd⟩ := ih (hone.orderly hs)
      (fun x hx p hp => hagenda x (List.mem_cons_of_mem _ hx) p (hone.peer?_eq hs hp)) i hi
    exact ⟨p, hone.peer?_eq hs hp, hd⟩
  | @overflowed h h₁ h₂ h' id m rest full full' he ddrop _ ihdrop ihrest =>
    obtain ⟨rfl, hsome⟩ := enqueue_eq_true he
    obtain ⟨q, hq⟩ := Option.isSome_iff_exists.1 hsome
    have hqd : q.doc = doc := hagenda _ (List.mem_cons_self ..) q hq
    have hdropped := (sends_dropped h₁ id).1
    have hcascade := ddrop.sends
    have hs' := hdropped.orderly hs
    have hnotices : ∀ x ∈ (h₁.dropped id).2, ∀ p,
        (h₁.dropped id).1.peer? x.1 = some p → p.doc = doc := by
      intro x hx p hp
      exact (doc_of_mem_dropped hs hq hx hp).trans hqd
    intro i hi
    rcases List.mem_append.1 hi with hi | hi
    · rcases List.mem_cons.1 hi with rfl | hi
      · exact ⟨q, hq, hqd⟩
      · obtain ⟨p, hp, hd⟩ := ihdrop hs' hnotices i hi
        exact ⟨p, hdropped.peer?_eq hs hp, hd⟩
    · have hback : ∀ {i : Nat} {p : Peer}, h₂.peer? i = some p → h₁.peer? i = some p :=
        fun hp => hdropped.peer?_eq hs (hcascade.peer?_eq hs' hp)
      obtain ⟨p, hp, hd⟩ := ihrest (hcascade.orderly hs')
        (fun x hx p hp => hagenda x (List.mem_cons_of_mem _ hx) p (hback hp)) i hi
      exact ⟨p, hback hp, hd⟩

/-! ### One write -/

/-- A write is refused: its peer is told why and that it was looked at, and that is all. -/
structure Refuses (h h' : Hub) (p : Peer) (seq : Nat) (ms : List SyncMessage) : Prop where
  told : ∃ r : Refusal, ms = [r.toMessage, .ack p.doc seq]
  document : h'.replica p.doc = h.replica p.doc
  others : ∀ i, i ≠ p.id → h'.mail i = h.mail i

/-- A write is taken: its peer is told so, and of its own write nothing more. If no queue of the document is
too full, an open queue on it that is not the peer's gets the write, and just that, if the document
changed, and nothing otherwise. -/
structure Takes (h h' : Hub) (p : Peer) (seq : Nat) (u : FieldUpdate) (ms : List SyncMessage) : Prop where
  told : ∃ rest, ms = .ack p.doc seq :: rest ∧ ∀ m ∈ rest, IsPresence m
  covers : (h'.replica p.doc).Covers u
  others : (∀ full, Performs h (.handle p.id (.update p.doc seq u)) full h' →
      ∀ i ∈ full, ∀ q, h.peer? i = some q → q.doc ≠ p.doc) →
    ∀ q ∈ h.peers, q.doc = p.doc → q.id ≠ p.id → h.isClosed q.id = false →
      (h'.replica p.doc ≠ h.replica p.doc → h'.mail q.id = h.mail q.id ++ [.update p.doc 0 u]) ∧
      (h'.replica p.doc = h.replica p.doc → h'.mail q.id = h.mail q.id)

variable {p : Peer} {seq : Nat} {u : FieldUpdate}

theorem Refuses.acknowledged {ms : List SyncMessage} (a : Refuses h h' p seq ms) :
    ms.countP (acknowledges seq) = 1 := by
  obtain ⟨r, rfl⟩ := a.told
  simp [acknowledges, Refusal.toMessage]

theorem Takes.acknowledged {ms : List SyncMessage} (a : Takes h h' p seq u ms) :
    ms.countP (acknowledges seq) = 1 := by
  obtain ⟨rest, rfl, hrest⟩ := a.told
  have hnone : rest.countP (acknowledges seq) = 0 := by
    refine List.countP_eq_zero.2 fun m hm => ?_
    have hpresence := hrest m hm
    cases m with
    | awareness d c s => simp [acknowledges]
    | _ => exact hpresence.elim
  simp [hnone, acknowledges]

/-- Two messages for a peer with room for them. -/
theorem delivers_of_room (ho : h.isClosed id = false) (hroom : (h.mail id).length + 2 ≤ Mailbox.capacity)
    (m n : SyncMessage) : Delivers h [(id, m), (id, n)] [] ((h.queued id m).queued id n) := by
  have hlonger : ((h.queued id m).mail id).length = (h.mail id).length + 1 := by
    rw [mail_queued ho, if_pos rfl, List.length_append, List.length_singleton]
  have hopen := (isClosed_queued h id m id).trans ho
  exact .queued (enqueue_of_room ho (by omega) m) (.queued (enqueue_of_room hopen (by omega) n) (.done _))

theorem refuses_of_delivers {g : Hub} (hg : g = h ∨ g = h.bind p.id u.clock.replica)
    (ho : h.isClosed p.id = false) (hroom : (h.mail p.id).length + 2 ≤ Mailbox.capacity) {r : Refusal}
    (d : Delivers g [(p.id, r.toMessage), (p.id, .ack p.doc seq)] full h') :
    ∃ ms, h'.mail p.id = h.mail p.id ++ ms ∧ Refuses h h' p seq ms := by
  have hopen : g.isClosed p.id = false := by
    rcases hg with rfl | rfl
    · exact ho
    · exact (isClosed_bind h p.id _ p.id).trans ho
  have hmail : ∀ i, g.mail i = h.mail i := by
    rcases hg with rfl | rfl <;> exact fun _ => rfl
  have hreplica : g.replica p.doc = h.replica p.doc := by
    rcases hg with rfl | rfl <;> rfl
  obtain ⟨-, rfl⟩ := (delivers_of_room hopen (by rw [hmail]; exact hroom) _ _).unique d
  refine ⟨[r.toMessage, .ack p.doc seq], ?_, ⟨r, rfl⟩, hreplica, fun i hi => ?_⟩
  · rw [mail_queued ((isClosed_queued g _ _ _).trans hopen), mail_queued hopen, if_pos rfl, if_pos rfl, hmail,
      List.append_assoc]
    rfl
  · rw [mail_queued_of_ne _ hi, mail_queued_of_ne _ hi, hmail]

/-- The relay once a write is merged and acknowledged, before the others are told. -/
def acknowledged (h : Hub) (p : Peer) (seq : Nat) (u : FieldUpdate) : Hub :=
  (h.taken p u).queued p.id (.ack p.doc seq)

theorem mem_news {g : Hub} {x : Nat × SyncMessage} (hx : x ∈ h.news p u g) :
    x ∈ g.notices p.doc p.id (.update p.doc 0 u) := by
  unfold news at hx
  split at hx
  · exact hx
  · cases hx

theorem filter_news {g : Hub} (hs : g.Orderly) {q : Peer} (hq : g.peer? i = some q) (hd : q.doc = p.doc)
    (hne : i ≠ p.id) :
    ((h.news p u g).filter (·.1 == i)).map (·.2) =
      if (h.replica p.doc).isNews u then [.update p.doc 0 u] else [] := by
  unfold news
  split
  · rw [filter_notices hs hq, if_pos ⟨hd, hne⟩]
  · rfl

theorem Orderly.acknowledged (hs : h.Orderly) (p : Peer) (seq : Nat) (u : FieldUpdate) :
    (h.acknowledged p seq u).Orderly :=
  (hs.taken p u).updateMailbox p.id _ fun _ => rfl

theorem isClosed_acknowledged (h : Hub) (p : Peer) (seq : Nat) (u : FieldUpdate) (i : Nat) :
    (h.acknowledged p seq u).isClosed i = h.isClosed i :=
  (isClosed_queued _ _ _ i).trans (isClosed_taken h p u i)

theorem mail_acknowledged (ho : h.isClosed p.id = false) (seq : Nat) (u : FieldUpdate) :
    (h.acknowledged p seq u).mail p.id = h.mail p.id ++ [.ack p.doc seq] := by
  rw [Hub.acknowledged, mail_queued ((isClosed_taken h p u p.id).trans ho), if_pos rfl]
  rfl

theorem exists_peer?_acknowledged {q : Peer} (hq : h.peer? i = some q) (p : Peer) (seq : Nat)
    (u : FieldUpdate) : ∃ r, (h.acknowledged p seq u).peer? i = some r ∧ r.doc = q.doc := by
  refine ⟨_, (peer?_bind h p.id i u.clock.replica).trans (by rw [hq]; rfl), ?_⟩
  dsimp only
  split <;> rfl

/-- The acknowledgement finds room, so that whatever overflows does so when the others are told. -/
theorem delivers_acknowledged (ho : h.isClosed p.id = false)
    (hroom : (h.mail p.id).length + 2 ≤ Mailbox.capacity) (seq : Nat) (u : FieldUpdate) :
    Delivers (h.taken p u) [(p.id, .ack p.doc seq)] [] (h.acknowledged p seq u) := by
  have hlen : ((h.taken p u).mail p.id).length < Mailbox.capacity := by
    change (h.mail p.id).length < _
    omega
  exact .queued (enqueue_of_room ((isClosed_taken h p u p.id).trans ho) hlen _) (.done _)

theorem takes_of_delivers (hs : h.Orderly) (hw : (h.replica p.doc).WellFormed)
    (ho : h.isClosed p.id = false)
    (d : Delivers (h.acknowledged p seq u) (h.news p u (h.acknowledged p seq u)) full h')
    (hperforms : Performs h (.handle p.id (.update p.doc seq u)) full h') :
    ∃ ms, h'.mail p.id = h.mail p.id ++ ms ∧ Takes h h' p seq u ms := by
  have hs₁ := hs.acknowledged p seq u
  have hreplica : h'.replica p.doc = ((h.replica p.doc).merge u).2 :=
    (d.sends.document p.doc).trans (replica_taken h p u)
  obtain ⟨rest, hrest, hallowed⟩ := d.sends.mail p.id
  refine ⟨.ack p.doc seq :: rest, ?_, ⟨rest, rfl, fun m hm => ?_⟩, ?_, fun hfull q hq hd hne hoq => ?_⟩
  · rw [hrest, mail_acknowledged ho, List.append_assoc]
    rfl
  · rcases hallowed m hm with hm | hm
    · exact hm
    · obtain ⟨i, hi, he⟩ := List.mem_map.1 (mem_news hm)
      obtain ⟨rfl, -⟩ := Prod.mk.inj he
      simp at hi
  · rw [hreplica]
    exact Document.covers_merge_self _ u
  · have hnone : full = [] := by
      refine List.eq_nil_iff_forall_not_mem.2 fun i hi => ?_
      obtain ⟨r, hr, hrd⟩ := d.full_on hs₁ (fun x hx q hq => doc_of_mem_notices hs₁ (mem_news hx) hq) i hi
      obtain ⟨r', hr', hd'⟩ := peer?_of_bind (h := h) hr
      exact hfull _ hperforms i hi r' hr' (hd'.trans hrd)
    rw [hnone] at d
    obtain ⟨r, hr, hrd⟩ := exists_peer?_acknowledged (hs.peer?_of_mem hq) p seq u
    have hmail := d.mail_of_room ((isClosed_acknowledged h p seq u q.id).trans hoq)
    rw [filter_news hs₁ hr (hrd.trans hd) hne] at hmail
    have hbefore : (h.acknowledged p seq u).mail q.id = h.mail q.id := mail_queued_of_ne _ hne _
    rw [hreplica, ne_eq, Document.merge_eq_self_iff hw, Bool.not_eq_false, hmail, hbefore]
    exact ⟨fun hnews => by rw [if_pos hnews], fun hstale => by simp [hstale]⟩

/-- A write of a peer that has room for two messages is refused or taken. -/
theorem Performs.refuses_or_takes (a : Performs h (.handle p.id (.update p.doc seq u)) full h')
    (hs : h.Orderly) (hw : (h.replica p.doc).WellFormed) (hp : h.peer? p.id = some p)
    (ho : h.isClosed p.id = false) (hroom : (h.mail p.id).length + 2 ≤ Mailbox.capacity) :
    ∃ ms, h'.mail p.id = h.mail p.id ++ ms ∧ (Refuses h h' p seq ms ∨ Takes h h' p seq u ms) := by
  have hplan : h.plan p.id (.update p.doc seq u) = h.updatePlan p seq u := by
    simp [plan, hp, SyncMessage.doc?]
  have hperforms := a
  cases a with
  | handled d d' =>
    rw [hplan] at d d'
    rcases updatePlan_cases h p seq u with ⟨r, g, hg, he⟩ | he
    · rw [he] at d d'
      cases d'
      obtain ⟨ms, hmail, hrefuses⟩ := refuses_of_delivers hg ho hroom d
      exact ⟨ms, hmail, .inl hrefuses⟩
    · rw [he] at d d'
      obtain ⟨rfl, rfl⟩ := (delivers_acknowledged ho hroom seq u).unique d
      obtain ⟨ms, hmail, htakes⟩ := takes_of_delivers hs hw ho d' hperforms
      exact ⟨ms, hmail, .inr htakes⟩

end Hub

namespace History

variable {t : History} {doc : String} {u : FieldUpdate}

/-- An event makes of a document what one merge makes of it, or nothing. -/
theorem replica_next (t : History) (e : Event) (doc : String) :
    (t.next e).hub.replica doc = t.hub.replica doc ∨
      ∃ u, (t.next e).hub.replica doc = ((t.hub.replica doc).merge u).2 := by
  cases e with
  | connect d client =>
    refine .inl ?_
    cases hconn : t.hub.connect d client with
    | error x => simp only [next, hconn]
    | ok x =>
      obtain ⟨id, h⟩ := x
      simp only [next, hconn]
      unfold Hub.replica
      rw [Hub.room_connect hconn]
      split
      · next he => rw [he]
      · rfl
  | handle id m => exact Hub.replica_handle t.hub id m doc
  | disconnect id => exact .inl ((Hub.sends_disconnect t.hub id).document doc)
  | read id =>
    refine .inl ?_
    cases ht : t.hub.takeNext id with
    | none => simp only [next, ht]
    | some x =>
      obtain ⟨m, h⟩ := x
      obtain ⟨r, -, hx⟩ := Hub.takeNext_eq_some ht
      simp only [next, ht, hx]
      rfl
  | abandon id => exact .inl rfl

/-- The relay goes on covering what it covers. -/
theorem covers_next (hc : (t.hub.replica doc).Covers u) (e : Event) :
    ((t.next e).hub.replica doc).Covers u := by
  rcases replica_next t e doc with he | ⟨v, he⟩ <;> rw [he]
  · exact hc
  · exact hc.merge v

theorem covers_foldl (hc : (t.hub.replica doc).Covers u) (later : List Event) :
    ((later.foldl next t).hub.replica doc).Covers u := by
  induction later generalizing t with
  | nil => exact hc
  | cons e later ih => exact ih (covers_next hc e)

/-- In every state of a relay, a write of a peer whose queue is read and has room for two messages is
acknowledged once. Either the peer is told before why it is refused, and nothing else is done, or the relay
covers it in that state and in every later one, and tells just the others of it, if it is news to the
document. -/
theorem acknowledged_writes_are_covered (policy : SecurityPolicy) (events : List Event) {p : Peer}
    (hp : (after policy events).hub.peer? p.id = some p)
    (ho : (after policy events).hub.isClosed p.id = false)
    (hroom : ((after policy events).hub.mail p.id).length + 2 ≤ Mailbox.capacity) (seq : Nat)
    (u : FieldUpdate) :
    ∃ ms, (after policy (events ++ [.handle p.id (.update p.doc seq u)])).hub.mail p.id =
        (after policy events).hub.mail p.id ++ ms ∧
      ms.countP (acknowledges seq) = 1 ∧
      (Hub.Refuses (after policy events).hub
          (after policy (events ++ [.handle p.id (.update p.doc seq u)])).hub p seq ms ∨
        Hub.Takes (after policy events).hub
          (after policy (events ++ [.handle p.id (.update p.doc seq u)])).hub p seq u ms ∧
        ∀ later, ((after policy (events ++ .handle p.id (.update p.doc seq u) :: later)).hub.replica
          p.doc).Covers u) := by
  have s := settled_after policy events relayReplica
  obtain ⟨full, a⟩ := Hub.performs_next (after policy events) (.handle p.id (.update p.doc seq u))
  rw [after_concat]
  obtain ⟨ms, hmail, hrefuses | htakes⟩ :=
    a.refuses_or_takes s.orderly (s.grounded p.doc).wellFormed hp ho hroom
  · exact ⟨ms, hmail, hrefuses.acknowledged, .inl hrefuses⟩
  · refine ⟨ms, hmail, htakes.acknowledged, .inr ⟨htakes, fun later => ?_⟩⟩
    rw [after_append]
    exact covers_foldl htakes.covers later

/-- Two peers on a document of which every field may be written. -/
def together : History :=
  after ⟨⟨none⟩, ⟨["output"]⟩, .empty, 10, 1000⟩ [.connect "d" "ada", .connect "d" "eve"]

theorem acknowledged_writes_are_covered_together :
    together.hub.peer? 1 = some ⟨1, "d", "ada", none⟩ ∧ together.hub.isClosed 1 = false ∧
      (together.hub.mail 1).length + 2 ≤ Mailbox.capacity ∧
      (together.hub.handle 1 (.update "d" 7 ⟨"f", .null, ⟨1, "a"⟩⟩)).mail 2 =
        [.update "d" 0 ⟨"f", .null, ⟨1, "a"⟩⟩] ∧
      ∃ ms, (together.hub.handle 1 (.update "d" 7 ⟨"f", .null, ⟨1, "a"⟩⟩)).mail 1 =
          together.hub.mail 1 ++ ms ∧
        ms.countP (acknowledges 7) = 1 := by
  have hroom : (together.hub.mail 1).length + 2 ≤ Mailbox.capacity := by decide
  obtain ⟨ms, hmail, hone, -⟩ := acknowledged_writes_are_covered _ _ (p := ⟨1, "d", "ada", none⟩) rfl rfl
    hroom 7 ⟨"f", .null, ⟨1, "a"⟩⟩
  exact ⟨rfl, rfl, hroom, rfl, ms, hmail, hone⟩

end History

end SecureLayout.Collab
