import SecureLayout.Proofs.Collab.Acknowledgement
import SecureLayout.Proofs.Wire.Texts

/-!
What a relay says is made of what it was told. Main statements: whatever holds of the updates, the numbers and
the presence in all messages that it was told holds of those that it sends; and if all of them came as texts
of integers, whatever it sends can be read as a text again, but for a `sync_state` with a value of 125 levels.
-/

namespace SecureLayout.Collab

open Json (Value)
open Json.Reader (greatestDepth)
open Wire (FieldUpdate SyncMessage)

theorem Awareness.mem_states_leave {a : Awareness} {doc client d : String} {s : String × Value}
    (h : s ∈ (a.leave doc client).2.states d) : s ∈ a.states d := by
  unfold leave at h
  split at h
  · rw [states_update] at h
    split at h
    · next hd => exact hd ▸ (List.mem_filter.1 h).1
    · exact h
  · exact h

theorem Awareness.mem_states_apply {a : Awareness} {doc client d : String} {state : Option Value}
    {s : String × Value} (h : s ∈ (a.apply doc client state).states d) : s ∈ a.states d ∨ s.2 ∈ state := by
  cases state with
  | none => exact .inl (mem_states_leave h)
  | some v =>
    rw [apply, states_set] at h
    split at h
    · next hd =>
      rcases Entries.mem_put h with rfl | h
      · exact .inr rfl
      · exact .inl (hd ▸ h)
    · exact .inl h

theorem Document.mem_snapshot_of_merge {d : Document} {u e : FieldUpdate}
    (he : e ∈ (d.merge u).2.snapshot) : e ∈ d.snapshot ∨ e = u := by
  unfold merge at he
  split at he
  · obtain ⟨x, hx, rfl⟩ := List.mem_map.1 he
    rcases Entries.mem_put hx with rfl | hx
    · exact .inr rfl
    · exact .inl (List.mem_map_of_mem hx)
  · exact .inl he

namespace Hub

variable {W : FieldUpdate → Prop} {S : Nat → Prop} {P : Value → Prop}

/-- All entries, presence and unread messages are of the given kind. -/
structure Holds (W : FieldUpdate → Prop) (S : Nat → Prop) (P : Value → Prop) (h : Hub) : Prop where
  entries : ∀ doc, ∀ u ∈ (h.replica doc).snapshot, W u
  present : ∀ doc, ∀ s ∈ h.awareness.states doc, P s.2
  mail : ∀ i, ∀ m ∈ h.mail i, m.Carries W S P

variable {h h₁ h' : Hub} {id : Nat} {m : SyncMessage} {agenda : Agenda} {full : List Nat} {p : Peer} {e : Event}

theorem Holds.empty (policy : SecurityPolicy) : Holds W S P { policy } where
  entries _ _ hu := absurd hu List.not_mem_nil
  present _ _ hs := absurd hs List.not_mem_nil
  mail _ _ hm := absurd hm List.not_mem_nil

/-- Sending what is of the kind keeps it, and presence may end meanwhile. -/
theorem Holds.sends {allowed : Nat → SyncMessage → Prop} (hh : h.Holds W S P) (a : Sends allowed h h')
    (hallowed : ∀ i m, allowed i m → m.Carries W S P)
    (hless : ∀ doc, ∀ s ∈ h'.awareness.states doc, s ∈ h.awareness.states doc) : h'.Holds W S P where
  entries doc u hu := hh.entries doc u (by rwa [replica, a.document doc] at hu)
  present doc s hs := hh.present doc s (hless doc s hs)
  mail i m hm := by
    obtain ⟨ms, hmail, hms⟩ := a.mail i
    rw [hmail] at hm
    rcases List.mem_append.1 hm with hm | hm
    · exact hh.mail i m hm
    · exact hallowed i m (hms m hm)

theorem Holds.enqueue (hh : h.Holds W S P) (id : Nat) (hm : m.Carries W S P) :
    (h.enqueue id m).2.Holds W S P := by
  refine hh.sends (sends_enqueue h id m) (fun i x hx => hx.2 ▸ hm) fun doc s hs => ?_
  obtain ⟨mailboxes, he⟩ := enqueue_mailboxes h id m
  rwa [he] at hs

theorem Holds.dropped (hh : h.Holds W S P) (id : Nat) : (h.dropped id).1.Holds W S P := by
  refine hh.sends (sends_dropped h id).1 (fun i m hm => hm.elim) fun doc s hs => ?_
  cases hp : h.peer? id with
  | none => rwa [dropped_of_unknown hp] at hs
  | some p =>
    rw [awareness_dropped hp] at hs
    exact Awareness.mem_states_leave hs

/-- All that is told of the end of a connection is that its client left. -/
theorem carries_dropped (h : Hub) (id : Nat) : ∀ x ∈ (h.dropped id).2, x.2.Carries W S P := by
  unfold Hub.dropped
  split
  · exact fun x hx => absurd hx List.not_mem_nil
  · split
    · exact fun x hx => absurd hx List.not_mem_nil
    · intro x hx
      obtain ⟨i, -, rfl⟩ := List.mem_map.1 hx
      exact ⟨nofun, nofun, nofun⟩

theorem Delivers.holds (d : Delivers h agenda full h') (hh : h.Holds W S P)
    (hagenda : ∀ x ∈ agenda, x.2.Carries W S P) : h'.Holds W S P := by
  induction d with
  | done h => exact hh
  | @queued h h₁ h' id m rest full he _ ih =>
    obtain ⟨hm, hrest⟩ := List.forall_mem_cons.1 hagenda
    have hone := hh.enqueue id hm
    rw [he] at hone
    exact ih hone hrest
  | @overflowed h h₁ h₂ h' id m rest full full' he _ _ ihdrop ihrest =>
    obtain ⟨rfl, -⟩ := enqueue_eq_true he
    obtain ⟨-, hrest⟩ := List.forall_mem_cons.1 hagenda
    exact ihrest (ihdrop (hh.dropped id) (carries_dropped h₁ id)) hrest

/-! ### What a message makes of the relay and makes it send -/

/-- A plan of a relay of the kind, all of whose messages are of the kind. -/
structure Plan.Keeps (W : FieldUpdate → Prop) (S : Nat → Prop) (P : Value → Prop) (q : Plan) : Prop where
  hub : q.hub.Holds W S P
  first : ∀ x ∈ q.first, x.2.Carries W S P
  second : ∀ g : Hub, g.Holds W S P → ∀ x ∈ q.second g, x.2.Carries W S P

theorem carries_refusal (r : Refusal) : r.toMessage.Carries W S P :=
  ⟨nofun, nofun, nofun⟩

theorem carries_notices {doc : String} {sender : Nat} (hm : m.Carries W S P) :
    ∀ x ∈ h.notices doc sender m, x.2.Carries W S P := by
  intro x hx
  obtain ⟨i, -, rfl⟩ := List.mem_map.1 hx
  exact hm

theorem Holds.taken (hh : h.Holds W S P) (p : Peer) {u : FieldUpdate} (hu : W u) :
    (h.taken p u).Holds W S P := by
  refine ⟨fun doc v hv => ?_, hh.present, hh.mail⟩
  by_cases hd : doc = p.doc
  · subst hd
    rw [replica_taken] at hv
    rcases Document.mem_snapshot_of_merge hv with hv | rfl
    · exact hh.entries p.doc v hv
    · exact hu
  · rw [replica, room_taken, if_neg hd] at hv
    exact hh.entries doc v hv

theorem Holds.bind (hh : h.Holds W S P) (id : Nat) (r : String) : (h.bind id r).Holds W S P :=
  ⟨hh.entries, hh.present, hh.mail⟩

theorem Holds.applyAwareness (hh : h.Holds W S P) (doc client : String) {state : Option Value}
    (hstate : ∀ v ∈ state, P v) :
    Holds W S P { h with awareness := h.awareness.apply doc client state } := by
  refine ⟨hh.entries, fun d s hs => ?_, hh.mail⟩
  rcases Awareness.mem_states_apply hs with hs | hs
  · exact hh.present d s hs
  · exact hstate s.2 hs

theorem keeps_still (hh : h.Holds W S P) {first : Agenda} (hfirst : ∀ x ∈ first, x.2.Carries W S P) :
    Plan.Keeps W S P { hub := h, first } :=
  ⟨hh, hfirst, nofun⟩

theorem keeps_updatePlan (hh : h.Holds W S P) (hzero : S 0) (p : Peer) {seq : Nat} {u : FieldUpdate}
    (hseq : S seq) (hu : W u) : (h.updatePlan p seq u).Keeps W S P := by
  have hack : (SyncMessage.ack p.doc seq).Carries W S P := ⟨nofun, fun n hn => by cases hn; exact hseq, nofun⟩
  have hupdate : (SyncMessage.update p.doc 0 u).Carries W S P := by
    refine ⟨fun v hv => ?_, fun n hn => by cases hn; exact hzero, nofun⟩
    rw [List.mem_singleton.1 hv]
    exact hu
  have hrefused (r : Refusal) :
      ∀ x ∈ [(p.id, r.toMessage), (p.id, SyncMessage.ack p.doc seq)], x.2.Carries W S P := by
    simp [carries_refusal r, hack]
  rcases updatePlan_cases h p seq u with ⟨r, g, rfl | rfl, he⟩ | he <;> rw [he]
  · exact keeps_still hh (hrefused r)
  · exact keeps_still (hh.bind p.id _) (hrefused r)
  · exact ⟨hh.taken p hu, by simpa using hack, fun g _ x hx => carries_notices hupdate x (mem_news hx)⟩

theorem keeps_welcomePlan (hh : h.Holds W S P) (p : Peer) : (h.welcomePlan p).Keeps W S P := by
  refine ⟨hh, fun x hx => ?_, fun g hg x hx => ?_⟩
  · rw [List.mem_singleton.1 hx]
    exact ⟨hh.entries p.doc, nofun, nofun⟩
  · obtain ⟨s, hs, rfl⟩ := List.mem_map.1 hx
    exact ⟨nofun, nofun, fun v hv => by cases hv; exact hg.present p.doc s (List.mem_filter.1 hs).1⟩

theorem keeps_plan (hh : h.Holds W S P) (hzero : S 0) (id : Nat) (hm : m.Carries W S P) :
    (h.plan id m).Keeps W S P := by
  unfold plan
  split
  · exact keeps_still hh nofun
  · next p _ =>
    have hrefused (r : Refusal) : ∀ x ∈ [(id, r.toMessage)], x.2.Carries W S P := by
      simpa using carries_refusal r
    split
    · exact keeps_still hh (hrefused _)
    · cases m with
      | hello d c => exact keeps_welcomePlan hh p
      | update d seq u =>
        exact keeps_updatePlan hh hzero p (hm.seq seq rfl) (hm.updates u (List.mem_singleton_self u))
      | awareness d c state =>
        refine keeps_still (hh.applyAwareness p.doc p.client hm.state) (carries_notices ?_)
        exact ⟨nofun, nofun, hm.state⟩
      | syncState d us => exact keeps_still hh (hrefused _)
      | ack d seq => exact keeps_still hh (hrefused _)
      | error c s => exact keeps_still hh (hrefused _)

/-! ### Operations -/

theorem Holds.connect {doc client : String} (hh : h.Holds W S P) (hs : h.Orderly)
    (hc : h.connect doc client = .ok (id, h')) : h'.Holds W S P := by
  refine ⟨fun d u hu => ?_, fun d s hs' => ?_, fun i m hm => ?_⟩
  · rw [replica, room_connect hc] at hu
    split at hu
    · next hd => exact hh.entries d u (hd ▸ hu)
    · exact hh.entries d u hu
  · rw [(connect_eq_ok hc).2] at hs'
    exact hh.present d s hs'
  · rw [mail_connect hs hc] at hm
    split at hm
    · exact absurd hm List.not_mem_nil
    · exact hh.mail i m hm

/-- A change that only takes messages out of one queue. -/
theorem mem_mail_of_updateMailbox {f : Mailbox → Mailbox} (hf : ∀ b, (f b).owner = b.owner)
    (hqueue : ∀ b, h.mailbox? id = some b → (f b).queue ⊆ b.queue) {i : Nat}
    (hm : m ∈ (h.updateMailbox id f).mail i) : m ∈ h.mail i := by
  by_cases hi : i = id
  · subst hi
    cases hb : h.mailbox? i with
    | none =>
      rw [Hub.mail, mailbox?_updateMailbox h i i f hf, if_pos rfl, hb] at hm
      exact absurd hm List.not_mem_nil
    | some b =>
      rw [mail_updateMailbox_self hb f hf] at hm
      rw [Hub.mail, hb]
      exact hqueue b hb hm
  · rwa [mail_updateMailbox h id i f hf hi] at hm

theorem mem_mail_of_takeNext {x : SyncMessage} (ht : h.takeNext id = some (x, h')) {i : Nat}
    (hm : m ∈ h'.mail i) : m ∈ h.mail i := by
  obtain ⟨r, hmail, rfl⟩ := takeNext_eq_some ht
  refine mem_mail_of_updateMailbox (f := fun b => { b with queue := r }) (fun _ => rfl) (fun b hb => ?_) hm
  rw [Hub.mail, hb] at hmail
  exact fun y hy => (show b.queue = x :: r from hmail) ▸ List.mem_cons_of_mem x hy

theorem mem_mail_of_abandon {i : Nat} (hm : m ∈ (h.abandon id).mail i) : m ∈ h.mail i :=
  mem_mail_of_updateMailbox (f := fun b => { b with queue := [], isRead := false }) (fun _ => rfl)
    (fun _ _ => List.nil_subset _) hm

theorem Performs.holds (a : Performs h e full h') (hs : h.Orderly) (hh : h.Holds W S P) (hzero : S 0)
    (he : ∀ id m, e = .handle id m → m.Carries W S P) : h'.Holds W S P := by
  cases a with
  | connected hc => exact hh.connect hs hc
  | notConnected _ => exact hh
  | @handled h₁ _ id m _ _ d d' =>
    have hplan := keeps_plan hh hzero id (he id m rfl)
    have hfirst := d.holds hplan.hub hplan.first
    exact d'.holds hfirst (hplan.second h₁ hfirst)
  | @disconnected _ id _ d => exact d.holds (hh.dropped id) (carries_dropped h id)
  | read ht =>
    have hmail := fun i m (hm : m ∈ h'.mail i) => hh.mail i m (mem_mail_of_takeNext ht hm)
    obtain ⟨r, -, rfl⟩ := takeNext_eq_some ht
    exact ⟨hh.entries, hh.present, hmail⟩
  | nothingToRead _ => exact hh
  | abandoned => exact ⟨hh.entries, hh.present, fun i m hm => hh.mail i m (mem_mail_of_abandon hm)⟩

end Hub

namespace History

variable {W : FieldUpdate → Prop} {S : Nat → Prop} {P : Value → Prop} {policy : SecurityPolicy}

/-- What was read from queues is of the kind, too. -/
structure Holds (W : FieldUpdate → Prop) (S : Nat → Prop) (P : Value → Prop) (t : History) : Prop where
  hub : t.hub.Holds W S P
  heard : ∀ i, ∀ m ∈ t.heard i, m.Carries W S P

/-- What is read stood in the queue. -/
theorem mem_heard_next {t : History} {e : Event} {i : Nat} {m : SyncMessage} (hm : m ∈ (t.next e).heard i) :
    m ∈ t.heard i ∨ m ∈ t.hub.mail i := by
  cases e with
  | connect doc client =>
    unfold next at hm
    dsimp only at hm
    split at hm <;> exact .inl hm
  | handle id x => exact .inl hm
  | disconnect id => exact .inl hm
  | read id =>
    unfold next at hm
    dsimp only at hm
    split at hm
    · next x hub hx =>
      dsimp only at hm
      by_cases hi : i = id
      · subst hi
        rw [Function.update_self] at hm
        rcases List.mem_append.1 hm with hm | hm
        · exact .inl hm
        · obtain ⟨r, hmail, -⟩ := Hub.takeNext_eq_some hx
          rw [List.mem_singleton.1 hm, hmail]
          exact .inr List.mem_cons_self
      · rw [Function.update_of_ne hi] at hm
        exact .inl hm
    · exact .inl hm
  | abandon id => exact .inl hm

theorem Holds.next {t : History} (ht : t.Holds W S P) (hs : t.hub.Orderly) (hzero : S 0) {e : Event}
    (he : ∀ id m, e = .handle id m → m.Carries W S P) : (t.next e).Holds W S P := by
  obtain ⟨full, a⟩ := Hub.performs_next t e
  refine ⟨a.holds hs ht.hub hzero he, fun i m hm => ?_⟩
  rcases mem_heard_next hm with hm | hm
  · exact ht.heard i m hm
  · exact ht.hub.mail i m hm

/-- In every run what a relay holds and says is made of what it was told. Writes are passed on as number 0. -/
theorem holds_after {events : List Event} (hzero : S 0)
    (htold : ∀ id m, .handle id m ∈ events → m.Carries W S P) : (after policy events).Holds W S P := by
  induction events using List.reverseRecOn with
  | nil => exact ⟨.empty policy, fun i m hm => absurd hm List.not_mem_nil⟩
  | append_singleton events e ih =>
    rw [after_concat]
    have hbefore := ih fun id m hm => htold id m (List.mem_append_left _ hm)
    refine hbefore.next (consistent_after policy events).toOrderly hzero fun id m he => ?_
    exact htold id m (he ▸ List.mem_append_right _ (List.mem_singleton_self e))

theorem Holds.enqueued {t : History} (ht : t.Holds W S P) {i : Nat} {m : SyncMessage} (hm : m ∈ t.enqueued i) :
    m.Carries W S P := by
  rcases List.mem_append.1 hm with hm | hm
  · exact ht.heard i m hm
  · exact ht.hub.mail i m hm

/-- All messages that the relay was told were decoded from texts, with integers as their numbers. -/
def Decoded (events : List Event) : Prop :=
  ∀ id m, .handle id m ∈ events → m.Integral ∧ ∃ s, SyncMessage.decode? s = .ok m

variable {events : List Event}

theorem Decoded.legible (h : Decoded events) {id : Nat} {m : SyncMessage} (hm : .handle id m ∈ events) :
    m.Legible 125 := by
  obtain ⟨hi, s, hs⟩ := h id m hm
  exact (SyncMessage.decodable_of_decode? hs).legible hi

/-- A relay that was told decoded messages says what can be decoded again, unless it says all of a document in
which a value has 125 levels: that is as many as an update leaves room for, and one too many here. -/
theorem enqueued_decodes_iff (policy : SecurityPolicy) (h : Decoded events) {i : Nat} {m : SyncMessage}
    (hm : m ∈ (after policy events).enqueued i) : SyncMessage.decode? m.encode = .ok m ↔
      ∀ doc us, m = .syncState doc us → ∀ u ∈ us, u.value.depth ≤ 124 :=
  SyncMessage.Legible.decode?_encode_iff ((holds_after (by decide) fun _ _ => h.legible).enqueued hm)

/-- If no value that came with an update was so deep, everything can be decoded again. -/
theorem enqueued_decodes (policy : SecurityPolicy) (h : Decoded events)
    (hflat : ∀ id m, .handle id m ∈ events → ∀ u ∈ m.updates, u.value.depth ≤ 124) {i : Nat} {m : SyncMessage}
    (hm : m ∈ (after policy events).enqueued i) : SyncMessage.decode? m.encode = .ok m := by
  have hlegible : m.Legible 124 := by
    refine (holds_after (by decide) fun id m hm => ?_).enqueued hm
    have hm' := h.legible hm
    exact ⟨fun u hu => ⟨⟨(hm'.updates u hu).1.1, hflat id m hm u hu⟩, (hm'.updates u hu).2⟩, hm'.seq, hm'.state⟩
  refine (enqueued_decodes_iff policy h hm).2 ?_
  rintro doc us rfl u hu
  exact (hlegible.updates u hu).1.2

end History

end SecureLayout.Collab
