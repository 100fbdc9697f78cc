import SecureLayout.Proofs.Collab.Acknowledgement

/-!
Documents are kept apart, although they share one relay. Main statement: whatever a peer sends and however
its connection ends, with all connections that full queues end in turn, every document but its own keeps
its replica, its members, its presence and its queues.
-/

namespace SecureLayout.Collab

open Wire (FieldUpdate SyncMessage)

theorem Awareness.states_leave (a : Awareness) {doc other : String} (ho : other ≠ doc) (client : String) :
    (a.leave doc client).2.states other = a.states other := by
  unfold leave
  split
  · exact (states_update a doc other _).trans (if_neg ho)
  · rfl

theorem Awareness.states_apply (a : Awareness) {doc other : String} (ho : other ≠ doc) (client : String)
    (state : Option Json.Value) : (a.apply doc client state).states other = a.states other := by
  cases state with
  | none => exact a.states_leave ho client
  | some s => exact (a.states_set doc client other s).trans (if_neg ho)

namespace Hub

/-- An id belongs to a connection to this document. -/
def IsOn (h : Hub) (doc : String) (i : Nat) : Prop :=
  ∃ p, h.peer? i = some p ∧ p.doc = doc

/-- The second relay comes from the first by what concerns one document alone. Nobody comes to that document,
and whoever is not on it, being gone included, keeps its queue. -/
structure Confined (doc : String) (h h' : Hub) : Prop where
  rooms : ∀ other, other ≠ doc → Entries.get? other h'.rooms = Entries.get? other h.rooms
  presence : ∀ other, other ≠ doc → h'.awareness.states other = h.awareness.states other
  peers : ∀ i p, p.doc ≠ doc → (h'.peer? i = some p ↔ h.peer? i = some p)
  joined : ∀ i, h'.IsOn doc i → h.IsOn doc i
  mailboxes : ∀ i, ¬ h.IsOn doc i → h'.mailbox? i = h.mailbox? i

/-- Messages that are for nobody on another document. -/
def Concerns (h : Hub) (doc : String) (agenda : Agenda) : Prop :=
  ∀ x ∈ agenda, ∀ p, h.peer? x.1 = some p → p.doc = doc

variable {h h₁ h' h'' : Hub} {doc : String} {id i : Nat} {m : SyncMessage} {agenda : Agenda} {full : List Nat}
  {p : Peer} {e : Event}

namespace Confined

theorem refl (doc : String) (h : Hub) : Confined doc h h :=
  ⟨fun _ _ => rfl, fun _ _ => rfl, fun _ _ _ => Iff.rfl, fun _ => id, fun _ _ => rfl⟩

theorem trans (a : Confined doc h h') (b : Confined doc h' h'') : Confined doc h h'' where
  rooms other ho := (b.rooms other ho).trans (a.rooms other ho)
  presence other ho := (b.presence other ho).trans (a.presence other ho)
  peers i p hp := (b.peers i p hp).trans (a.peers i p hp)
  joined i hi := a.joined i (b.joined i hi)
  mailboxes i hi := (b.mailboxes i (mt (a.joined i) hi)).trans (a.mailboxes i hi)

/-- What is for nobody on another document stays so. -/
theorem concerns (a : Confined doc h h') (hc : h.Concerns doc agenda) : h'.Concerns doc agenda := by
  intro x hx p hp
  by_contra hne
  exact hne (hc x hx p ((a.peers x.1 p hne).1 hp))

theorem doc_eq (a : Confined doc h h') (hp : h.peer? id = some p) (hd : p.doc = doc) {q : Peer}
    (hq : h'.peer? id = some q) : q.doc = doc := by
  by_contra hne
  have hsame := (a.peers id q hne).1 hq
  rw [hp] at hsame
  cases hsame
  exact hne hd

end Confined

/-! ### Sending -/

theorem confined_enqueue (hid : ∀ p, h.peer? id = some p → p.doc = doc) (m : SyncMessage) :
    Confined doc h (h.enqueue id m).2 := by
  unfold enqueue
  split
  · next p b hp _ =>
    split
    · exact .refl doc h
    · split
      · exact .refl doc h
      · refine ⟨fun _ _ => rfl, fun _ _ => rfl, fun _ _ _ => Iff.rfl, fun _ hi => hi, fun i hi => ?_⟩
        have hne : i ≠ id := by
          rintro rfl
          exact hi ⟨p, hp, hid p hp⟩
        have hf : ∀ b : Mailbox, ({ b with queue := b.queue ++ [m] } : Mailbox).owner = b.owner := fun _ => rfl
        exact (mailbox?_updateMailbox h id i _ hf).trans (if_neg hne)
  · exact .refl doc h

theorem peer?_forget (h : Hub) (p : Peer) (i : Nat) :
    (h.forget p).peer? i = if i = p.id then none else h.peer? i := by
  unfold peer? forget putRoom
  rw [List.find?_filter]
  split
  · next hi =>
    subst hi
    exact List.find?_eq_none.2 fun q _ => by simp
  · next hi =>
    congr 1
    funext q
    by_cases hq : q.id = i
    · simp [hq, hi]
    · simp [hq]

theorem confined_forget (hp : h.peer? p.id = some p) : Confined p.doc h (h.forget p) := by
  refine ⟨fun other ho => ?_, fun _ _ => rfl, fun i q hq => ?_, ?_, fun _ _ => rfl⟩
  · exact (Entries.get?_put p.doc other _ h.rooms).trans (if_neg ho)
  · rw [peer?_forget]
    split
    · next hi =>
      subst hi
      rw [hp]
      constructor
      · rintro ⟨⟩
      · rintro ⟨⟩
        exact absurd rfl hq
    · exact Iff.rfl
  · rintro i ⟨q, hq, hd⟩
    rw [peer?_forget] at hq
    split at hq
    · cases hq
    · exact ⟨q, hq, hd⟩

theorem confined_awareness {a : Awareness}
    (ha : ∀ other, other ≠ doc → a.states other = h.awareness.states other) :
    Confined doc h { h with awareness := a } :=
  ⟨fun _ _ => rfl, ha, fun _ _ _ => Iff.rfl, fun _ => id, fun _ _ => rfl⟩

theorem confined_dropped (hid : ∀ p, h.peer? id = some p → p.doc = doc) :
    Confined doc h (h.dropped id).1 := by
  cases hp : h.peer? id with
  | none =>
    rw [dropped_of_unknown hp]
    exact .refl doc h
  | some p =>
    obtain ⟨-, rfl⟩ := peer?_eq_some hp
    obtain rfl := hid p hp
    have hforget := confined_forget hp
    have hleft := fun other (ho : other ≠ p.doc) => (h.forget p).awareness.states_leave ho p.client
    unfold dropped
    rw [hp]
    dsimp only
    split
    · exact hforget
    · next awareness hl =>
      rw [hl] at hleft
      exact hforget.trans (confined_awareness hleft)

/-- What is sent to peers of one document stays with it, whichever queues are full. -/
theorem Delivers.confined (d : Delivers h agenda full h') (hs : h.Orderly) (hc : h.Concerns doc agenda) :
    Confined doc h h' := by
  induction d with
  | done h => exact .refl doc h
  | @queued h h₁ h' id m rest full he _ ih =>
    have hone := confined_enqueue (hc _ (List.mem_cons_self ..)) m
    have ho := (sends_enqueue h id m).orderly hs
    rw [he] at hone ho
    exact hone.trans (ih ho (hone.concerns fun x hx => hc x (List.mem_cons_of_mem _ hx)))
  | @overflowed h h₁ h₂ h' id m rest full full' he ddrop _ ihdrop ihrest =>
    obtain ⟨rfl, hsome⟩ := enqueue_eq_true he
    obtain ⟨q, hq⟩ := Option.isSome_iff_exists.1 hsome
    have hqd : q.doc = doc := hc _ (List.mem_cons_self ..) q hq
    have hdropped := confined_dropped (hc _ (List.mem_cons_self ..))
    have hs' := (sends_dropped h₁ id).1.orderly hs
    have hnotices : (h₁.dropped id).1.Concerns doc (h₁.dropped id).2 :=
      fun x hx p hp => (doc_of_mem_dropped hs hq hx hp).trans hqd
    have hcascade := hdropped.trans (ihdrop hs' hnotices)
    exact hcascade.trans
      (ihrest (ddrop.sends.orderly hs') (hcascade.concerns fun x hx => hc x (List.mem_cons_of_mem _ hx)))

/-! ### What a message changes before anything is sent -/

theorem confined_bind (hp : h.peer? p.id = some p) (r : String) : Confined p.doc h (h.bind p.id r) := by
  refine ⟨fun _ _ => rfl, fun _ _ => rfl, fun i q hq => ?_, ?_, fun _ _ => rfl⟩
  · rw [peer?_bind]
    cases hi : h.peer? i with
    | none => exact Iff.rfl
    | some a =>
      by_cases he : a.id = p.id
      · -- The bound peer is on the document before and after, so it is not `q`.
        have hap : a = p := by
          obtain rfl := (peer?_eq_some hi).2
          rw [he, hp] at hi
          cases hi
          rfl
        subst hap
        constructor
        · intro hs
          simp only [beq_self_eq_true, if_true, Option.map_some, Option.some.injEq] at hs
          exact absurd (hs ▸ rfl) hq
        · intro hs
          cases hs
          exact absurd rfl hq
      · simp [he]
  · rintro i ⟨q, hq, hd⟩
    obtain ⟨a, ha, had⟩ := peer?_of_bind hq
    exact ⟨a, ha, had.trans hd⟩

theorem confined_putRoom (h : Hub) (doc : String) (r : Room) : Confined doc h (h.putRoom doc r) where
  rooms other ho := (Entries.get?_put doc other r h.rooms).trans (if_neg ho)
  presence _ _ := rfl
  peers _ _ _ := Iff.rfl
  joined _ hi := hi
  mailboxes _ _ := rfl

theorem confined_plan (hp : h.peer? id = some p) (m : SyncMessage) :
    Confined p.doc h (h.plan id m).hub := by
  obtain ⟨-, rfl⟩ := peer?_eq_some hp
  unfold plan
  rw [hp]
  dsimp only
  split
  · exact .refl _ h
  · cases m with
    | update d seq u =>
      have hbind := confined_bind hp u.clock.replica
      dsimp only
      rcases updatePlan_cases h p seq u with ⟨r, g, rfl | rfl, he⟩ | he <;> rw [he]
      · exact .refl _ g
      · exact hbind
      · exact hbind.trans (confined_putRoom _ p.doc _)
    | awareness d c state =>
      exact confined_awareness fun other ho => h.awareness.states_apply ho p.client state
    | _ => exact .refl _ h

/-! ### What a message makes the relay send -/

theorem concerns_notices (hs : h.Orderly) (doc : String) (sender : Nat) (m : SyncMessage) :
    h.Concerns doc (h.notices doc sender m) :=
  fun _ hx _ hq => doc_of_mem_notices hs hx hq

/-- Messages for a peer alone, which is on the document if it is still connected. -/
theorem concerns_own (hid : ∀ q, h.peer? id = some q → q.doc = doc) (hall : ∀ x ∈ agenda, x.1 = id) :
    h.Concerns doc agenda :=
  fun x hx q hq => hid q (hall x hx ▸ hq)

theorem concerns_first (hs : h.Orderly) (hp : h.peer? id = some p) (m : SyncMessage) :
    (h.plan id m).hub.Concerns p.doc (h.plan id m).first := by
  have hown : ∀ q, (h.plan id m).hub.peer? id = some q → q.doc = p.doc :=
    fun q hq => (confined_plan hp m).doc_eq hp rfl hq
  obtain ⟨-, rfl⟩ := peer?_eq_some hp
  revert hown
  unfold plan
  rw [hp]
  dsimp only
  split
  · exact fun hown => concerns_own hown (by simp)
  · cases m with
    | update d seq u =>
      dsimp only
      rcases updatePlan_cases h p seq u with ⟨r, g, -, he⟩ | he <;> rw [he] <;>
        exact fun hown => concerns_own hown (by simp)
    | awareness d c state =>
      exact fun _ => concerns_notices ((sends_awareness h _).orderly hs) p.doc p.id _
    | hello d c => exact fun hown => concerns_own hown (by simp [welcomePlan])
    | _ => exact fun hown => concerns_own hown (by simp)

theorem concerns_second (hs : h₁.Orderly) (hp : h.peer? id = some p) (m : SyncMessage)
    (hown : ∀ q, h₁.peer? id = some q → q.doc = p.doc) : h₁.Concerns p.doc ((h.plan id m).second h₁) := by
  obtain ⟨-, rfl⟩ := peer?_eq_some hp
  have hnone : h₁.Concerns p.doc [] := fun x hx => absurd hx List.not_mem_nil
  unfold plan
  rw [hp]
  dsimp only
  split
  · exact hnone
  · cases m with
    | update d seq u =>
      dsimp only
      rcases updatePlan_cases h p seq u with ⟨r, g, -, he⟩ | he <;> rw [he]
      · exact hnone
      · exact fun x hx q hq => doc_of_mem_notices hs (mem_news hx) hq
    | hello d c =>
      refine concerns_own hown fun x hx => ?_
      obtain ⟨s, -, rfl⟩ := List.mem_map.1 hx
      rfl
    | _ => exact hnone

/-! ### Operations -/

/-- What a peer sends, and the end of its connection, concern its document alone. -/
theorem Performs.confined (a : Performs h e full h') (hs : h.Consistent) (hp : h.peer? id = some p)
    (he : (∃ m, e = .handle id m) ∨ e = .disconnect id) : Confined p.doc h h' := by
  cases a with
  | @handled h₁ _ id' m _ _ d d' =>
    obtain rfl : id' = id := by
      rcases he with ⟨_, he⟩ | he <;> cases he
      rfl
    have hplan := confined_plan hp m
    have ho := (hs.plan id' m).toOrderly
    have hfirst := hplan.trans (d.confined ho (concerns_first hs.toOrderly hp m))
    have ho₁ := d.sends.orderly ho
    exact hfirst.trans (d'.confined ho₁ (concerns_second ho₁ hp m fun q hq => hfirst.doc_eq hp rfl hq))
  | @disconnected _ id' _ d =>
    obtain rfl : id' = id := by
      rcases he with ⟨_, he⟩ | he <;> cases he
      rfl
    have hid : ∀ q, h.peer? id' = some q → q.doc = p.doc := by
      intro q hq
      rw [hp] at hq
      cases hq
      rfl
    exact (confined_dropped hid).trans
      (d.confined (hs.dropped id').toOrderly fun x hx q hq => doc_of_mem_dropped hs.toOrderly hp hx hq)
  | _ => rcases he with ⟨_, he⟩ | he <;> cases he

end Hub

namespace History

/-- Whatever a connected peer sends, whichever document its message names, and however its connection ends,
everything stays as it was on the other documents: the replica and the members of each, its presence,
who is connected to it, and the queue of whoever is not connected to the peer's own document. -/
theorem other_documents_stay (policy : SecurityPolicy) (events : List Event) {id : Nat} {p : Peer}
    (hp : (after policy events).hub.peer? id = some p) {e : Event}
    (he : (∃ m, e = .handle id m) ∨ e = .disconnect id) :
    let h := (after policy events).hub
    let h' := ((after policy events).next e).hub
    (∀ doc, doc ≠ p.doc →
      Entries.get? doc h'.rooms = Entries.get? doc h.rooms ∧ h'.replica doc = h.replica doc ∧
        (h'.room doc).members = (h.room doc).members ∧ h'.awareness.states doc = h.awareness.states doc) ∧
    (∀ i q, q.doc ≠ p.doc → (h'.peer? i = some q ↔ h.peer? i = some q)) ∧
    ∀ i, (∀ q, h.peer? i = some q → q.doc ≠ p.doc) → h'.mailbox? i = h.mailbox? i := by
  intro h h'
  obtain ⟨full, a⟩ := Hub.performs_next (after policy events) e
  have hc : Hub.Confined p.doc h h' := a.confined (consistent_after policy events) hp he
  refine ⟨fun doc hne => ?_, hc.peers, fun i hi => hc.mailboxes i ?_⟩
  · have hrooms := hc.rooms doc hne
    have hroom : h'.room doc = h.room doc := by
      unfold Hub.room
      rw [hrooms]
    exact ⟨hrooms, congrArg Room.document hroom, congrArg Room.members hroom, hc.presence doc hne⟩
  · rintro ⟨q, hq, hd⟩
    exact hi q hq hd

/-- Ada is on one document, and Eve on another one, on which she wrote and is present. -/
def twoDocuments : History :=
  after ⟨⟨none⟩, ⟨["output"]⟩, .empty, 10, 1000⟩
    [.connect "d" "ada", .connect "e" "eve", .handle 2 (.update "e" 1 ⟨"f", .null, ⟨1, "eve"⟩⟩),
      .handle 2 (.awareness "e" "eve" (some (.bool true)))]

/-- Ada's message names the other document. -/
theorem other_documents_stay_named :
    twoDocuments.hub.peer? 1 = some ⟨1, "d", "ada", none⟩ ∧
      (twoDocuments.next (.handle 1 (.awareness "e" "eve" none))).hub.mail 1 =
        [Refusal.otherDocument.toMessage] ∧
      (twoDocuments.next (.handle 1 (.awareness "e" "eve" none))).hub.awareness.states "e" =
        [("eve", .bool true)] ∧
      (twoDocuments.next (.handle 1 (.awareness "e" "eve" none))).hub.replica "e" =
        twoDocuments.hub.replica "e" ∧
      (twoDocuments.next (.handle 1 (.awareness "e" "eve" none))).hub.mailbox? 2 =
        twoDocuments.hub.mailbox? 2 := by
  have hp : twoDocuments.hub.peer? 1 = some ⟨1, "d", "ada", none⟩ := rfl
  have hstays := other_documents_stay _ _ hp (.inl ⟨.awareness "e" "eve" none, rfl⟩)
  obtain ⟨hdocuments, -, hqueues⟩ := hstays
  obtain ⟨-, hreplica, -, hpresence⟩ := hdocuments "e" (by decide)
  refine ⟨hp, rfl, hpresence, hreplica, hqueues 2 fun q hq => ?_⟩
  have htwo : twoDocuments.hub.peer? 2 = some ⟨2, "e", "eve", some "eve"⟩ := rfl
  cases htwo.symm.trans hq
  decide

end History

end SecureLayout.Collab
