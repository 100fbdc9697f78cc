import Mathlib.Data.List.Induction
import SecureLayout.Proofs.Collab.Delivery
import SecureLayout.Proofs.Collab.Mirroring

/-!
Runs of a relay by rules. What full queues set off: a peer without room is dropped and its document's other peers are
told, of whom some may be without room in turn, without a bound on how far it goes. Main statements: by these rules
everything that is to be sent is dealt with, in one way only, and the relay's own sending is that way; whoever a queue
was too full for is connected no more; and with what an operation changes before it sends anything, every run comes to
an end, in one way only, which is what the relay makes of its events.
-/

namespace SecureLayout.Collab.Hub

open Wire (SyncMessage)

/-- Messages with the peers that they are for, the next one first. -/
abbrev Agenda := List (Nat × SyncMessage)

/-- A message to all peers that are on a document now, but to one of them not. -/
def notices (h : Hub) (doc : String) (sender : Nat) (m : SyncMessage) : Agenda :=
  ((h.room doc).members.filter (· != sender)).map (·, m)

/-- A relay after a connection has ended, and what the others are to be told of it. -/
def dropped (h : Hub) (id : Nat) : Hub × Agenda :=
  match h.peer? id with
  | none => (h, [])
  | some p =>
    match (h.forget p).awareness.leave p.doc p.client with
    | (false, _) => (h.forget p, [])
    | (true, awareness) =>
      ({ h.forget p with awareness }, (h.forget p).notices p.doc id (.awareness p.doc p.client none))

/-- Messages are sent in order. A peer whose queue is full is dropped, and all that this sets off is over
before the next message is sent. Listed are the peers whose queues were full. -/
inductive Delivers : Hub → Agenda → List Nat → Hub → Prop
  | done (h : Hub) : Delivers h [] [] h
  | queued {h h₁ h' : Hub} {id : Nat} {m : SyncMessage} {rest : Agenda} {full : List Nat} :
      h.enqueue id m = (false, h₁) → Delivers h₁ rest full h' → Delivers h ((id, m) :: rest) full h'
  | overflowed {h h₁ h₂ h' : Hub} {id : Nat} {m : SyncMessage} {rest : Agenda} {full full' : List Nat} :
      h.enqueue id m = (true, h₁) → Delivers (h₁.dropped id).1 (h₁.dropped id).2 full h₂ →
      Delivers h₂ rest full' h' → Delivers h ((id, m) :: rest) (id :: full ++ full') h'

/-- Messages sent one after the other. -/
def sendEach (h : Hub) (agenda : Agenda) : Hub :=
  agenda.foldl (fun h x => h.send x.1 x.2) h

variable {h h₁ h' h'' : Hub} {id i : Nat} {m : SyncMessage} {agenda : Agenda} {full full' : List Nat}

theorem broadcastOr_eq (drop : Hub → Nat → Hub) (doc : String) (sender : Nat) (m : SyncMessage) (h : Hub) :
    broadcastOr drop doc sender m h =
      (h.notices doc sender m).foldl (fun h x => sendOr drop x.2 h x.1) h := by
  rw [notices, List.foldl_map]
  rfl

theorem broadcast_eq_sendEach (h : Hub) (doc : String) (sender : Nat) (m : SyncMessage) :
    h.broadcast doc sender m = h.sendEach (h.notices doc sender m) :=
  broadcastOr_eq disconnect doc sender m h

/-! ### One connection ends -/

theorem enqueue_eq_true (he : h.enqueue id m = (true, h₁)) : h₁ = h ∧ (h.peer? id).isSome := by
  unfold enqueue at he
  split at he
  · next p b hp hb =>
    split at he
    · cases he
    · split at he
      · cases he
        exact ⟨rfl, by simp [hp]⟩
      · cases he
  · cases he

theorem dropped_of_unknown (hp : h.peer? id = none) : h.dropped id = (h, []) := by
  unfold dropped
  rw [hp]

/-- A connection that ends leaves less than there was, and presence is all that is told of it. -/
theorem sends_dropped (h : Hub) (id : Nat) :
    Sends (fun _ _ => False) h (h.dropped id).1 ∧ ∀ x ∈ (h.dropped id).2, IsPresence x.2 := by
  unfold dropped
  split
  · exact ⟨.refl h, fun x hx => absurd hx List.not_mem_nil⟩
  · next p _ =>
    split
    · exact ⟨sends_forget h p, fun x hx => absurd hx List.not_mem_nil⟩
    · next awareness _ =>
      refine ⟨(sends_forget h p).trans (sends_awareness _ awareness), fun x hx => ?_⟩
      obtain ⟨i, -, rfl⟩ := List.mem_map.1 hx
      trivial

theorem peers_dropped {p : Peer} (hp : h.peer? id = some p) :
    (h.dropped id).1.peers = h.peers.filter (·.id != id) := by
  obtain ⟨-, rfl⟩ := peer?_eq_some hp
  unfold dropped
  rw [hp]
  dsimp only
  split <;> rfl

theorem peer?_dropped (h : Hub) (id : Nat) : (h.dropped id).1.peer? id = none := by
  cases hp : h.peer? id with
  | none => rw [dropped_of_unknown hp, hp]
  | some p =>
    unfold peer?
    rw [peers_dropped hp]
    simp [List.find?_eq_none]

theorem length_peers_dropped {p : Peer} (hp : h.peer? id = some p) :
    (h.dropped id).1.peers.length < h.peers.length := by
  obtain ⟨hmem, hid⟩ := peer?_eq_some hp
  rw [peers_dropped hp]
  exact List.length_filter_lt_length_iff_exists.2 ⟨p, hmem, by simp [hid]⟩

/-! ### What is sent and to whom -/

/-- Besides what is on the agenda nothing but presence is sent. -/
theorem Delivers.sends (d : Delivers h agenda full h') :
    Sends (fun i x => IsPresence x ∨ (i, x) ∈ agenda) h h' := by
  induction d with
  | done h => exact .refl h
  | @queued h h₁ h' id m rest full he _ ih =>
    have hone := sends_enqueue h id m
    rw [he] at hone
    have hfirst : Sends (fun i x => IsPresence x ∨ (i, x) ∈ (id, m) :: rest) h h₁ := by
      refine hone.mono fun i x hx => .inr ?_
      rw [hx.1, hx.2]
      exact List.mem_cons_self ..
    exact hfirst.trans (ih.mono fun i x hx => hx.imp_right (List.mem_cons_of_mem _))
  | @overflowed h h₁ h₂ h' id m rest full full' he _ _ ihdrop ihrest =>
    obtain ⟨rfl, -⟩ := enqueue_eq_true he
    obtain ⟨hdropped, hpresence⟩ := sends_dropped h₁ id
    have hpassed : Sends (fun i x => IsPresence x ∨ (i, x) ∈ (id, m) :: rest) h₁ h₂ := by
      refine (hdropped.mono fun _ _ hx => hx.elim).trans (ihdrop.mono fun i x hx => .inl ?_)
      rcases hx with hx | hx
      · exact hx
      · exact hpresence _ hx
    exact hpassed.trans (ihrest.mono fun i x hx => hx.imp_right (List.mem_cons_of_mem _))

/-- There is one way to send what is on an agenda. -/
theorem Delivers.unique (d : Delivers h agenda full h') (d' : Delivers h agenda full' h'') :
    full' = full ∧ h'' = h' := by
  induction d generalizing full' h'' with
  | done h =>
    cases d'
    exact ⟨rfl, rfl⟩
  | queued he _ ih =>
    cases d' with
    | queued he' d' =>
      rw [he] at he'
      cases he'
      exact ih d'
    | overflowed he' _ _ =>
      rw [he] at he'
      cases he'
  | overflowed he _ _ ihdrop ihrest =>
    cases d' with
    | queued he' _ =>
      rw [he] at he'
      cases he'
    | overflowed he' ddrop drest =>
      rw [he] at he'
      cases he'
      obtain ⟨rfl, rfl⟩ := ihdrop ddrop
      obtain ⟨rfl, rfl⟩ := ihrest drest
      exact ⟨rfl, rfl⟩

/-! ### Everything comes to an end -/

/-- If dropping follows the rules for so few peers as these, so does sending. -/
theorem delivers_foldl_sendOr {drop : Hub → Nat → Hub} {n : Nat}
    (hdrop : ∀ (h : Hub) id, h.peers.length ≤ n →
      ∃ full, Delivers (h.dropped id).1 (h.dropped id).2 full (drop h id))
    (agenda : Agenda) {h : Hub} (hn : h.peers.length ≤ n) :
    ∃ full, Delivers h agenda full (agenda.foldl (fun h x => sendOr drop x.2 h x.1) h) := by
  induction agenda generalizing h with
  | nil => exact ⟨[], .done h⟩
  | cons x rest ih =>
    obtain ⟨id, m⟩ := x
    rw [List.foldl_cons]
    cases he : h.enqueue id m with
    | mk full? h₁ =>
      have hpeers := peers_enqueue h id m
      rw [he] at hpeers
      have hn₁ : h₁.peers.length ≤ n := by
        rw [show h₁.peers = h.peers from hpeers]
        exact hn
      cases full? with
      | false =>
        have hsent : sendOr drop m h id = h₁ := by simp only [sendOr, he]
        obtain ⟨full, d⟩ := ih hn₁
        exact ⟨full, hsent ▸ .queued he d⟩
      | true =>
        have hsent : sendOr drop m h id = drop h₁ id := by simp only [sendOr, he]
        obtain ⟨full, ddrop⟩ := hdrop h₁ id hn₁
        have hfewer := (ddrop.sends.peers.trans (sends_dropped h₁ id).1.peers).length_le
        obtain ⟨full', drest⟩ := ih (Nat.le_trans hfewer hn₁)
        exact ⟨id :: full ++ full', hsent ▸ .overflowed he ddrop drest⟩

/-- The bound on the depth is never what ends a disconnection. -/
theorem delivers_disconnectWithin {depth : Nat} {h : Hub} (id : Nat) (hdepth : h.peers.length ≤ depth) :
    ∃ full, Delivers (h.dropped id).1 (h.dropped id).2 full (disconnectWithin depth h id) := by
  induction depth generalizing h id with
  | zero =>
    have hp : h.peer? id = none := by
      unfold peer?
      rw [List.eq_nil_of_length_eq_zero (Nat.le_zero.1 hdepth)]
      rfl
    rw [dropped_of_unknown hp]
    exact ⟨[], .done h⟩
  | succ depth ih =>
    cases hp : h.peer? id with
    | none =>
      rw [dropped_of_unknown hp]
      simp only [disconnectWithin, hp]
      exact ⟨[], .done h⟩
    | some p =>
      have hfewer := Nat.le_of_lt_succ (Nat.lt_of_lt_of_le (length_peers_dropped hp) hdepth)
      cases hl : (h.forget p).awareness.leave p.doc p.client with
      | mk present awareness =>
        cases present with
        | false =>
          simp only [disconnectWithin, dropped, hp, hl]
          exact ⟨[], .done _⟩
        | true =>
          simp only [disconnectWithin, dropped, hp, hl, broadcastOr_eq] at hfewer ⊢
          exact delivers_foldl_sendOr (fun h id => ih id) _ hfewer

theorem delivers_disconnect (h : Hub) (id : Nat) :
    ∃ full, Delivers (h.dropped id).1 (h.dropped id).2 full (h.disconnect id) :=
  delivers_disconnectWithin id (Nat.le_refl _)

theorem delivers_sendEach (h : Hub) (agenda : Agenda) : ∃ full, Delivers h agenda full (h.sendEach agenda) :=
  delivers_foldl_sendOr (fun h id _ => delivers_disconnect h id) agenda (Nat.le_refl _)

/-! ### Peers whose queues were full -/

theorem Sends.peer?_eq_none {allowed : Nat → SyncMessage → Prop} (a : Sends allowed h h')
    (hp : h.peer? id = none) : h'.peer? id = none := by
  refine List.find?_eq_none.2 fun q hq => ?_
  exact List.find?_eq_none.1 hp q (a.peers.subset hq)

theorem Sends.isSome_before {allowed : Nat → SyncMessage → Prop} (a : Sends allowed h h')
    (hp : (h'.peer? i).isSome) : (h.peer? i).isSome := by
  rw [Option.isSome_iff_ne_none] at hp ⊢
  exact fun hnone => hp (a.peer?_eq_none hnone)

/-- Whoever a queue was too full for was connected and is no more. -/
theorem Delivers.gone (d : Delivers h agenda full h') (hi : i ∈ full) :
    (h.peer? i).isSome ∧ h'.peer? i = none := by
  induction d with
  | done h => cases hi
  | @queued h h₁ h' id m rest full he _ ih =>
    have hone := sends_enqueue h id m
    rw [he] at hone
    exact ⟨hone.isSome_before (ih hi).1, (ih hi).2⟩
  | @overflowed h h₁ h₂ h' id m rest full full' he ddrop drest ihdrop ihrest =>
    obtain ⟨rfl, hp⟩ := enqueue_eq_true he
    have hdropped := (sends_dropped h₁ id).1
    rcases List.mem_append.1 hi with hi | hi
    · rcases List.mem_cons.1 hi with rfl | hi
      · exact ⟨hp, drest.sends.peer?_eq_none (ddrop.sends.peer?_eq_none (peer?_dropped h₁ i))⟩
      · exact ⟨hdropped.isSome_before (ihdrop hi).1, drest.sends.peer?_eq_none (ihdrop hi).2⟩
    · exact ⟨hdropped.isSome_before (ddrop.sends.isSome_before (ihrest hi).1), (ihrest hi).2⟩

end SecureLayout.Collab.Hub

namespace SecureLayout.Collab

open Wire (FieldUpdate SyncMessage)

namespace Hub

/-- What handling a message comes to: a change, then messages, and then further ones that depend on what
has become of the relay by then. -/
structure Plan where
  hub : Hub
  first : Agenda := []
  second : Hub → Agenda := fun _ => []

/-- Who else is present on a peer's document. -/
def presences (h : Hub) (p : Peer) : Agenda :=
  ((h.awareness.states p.doc).filter (·.1 != p.client)).map fun s => (p.id, .awareness p.doc s.1 (some s.2))

/-- Why a write is not taken, if it is not, and the relay as it is after it was looked at. -/
def verdict (h : Hub) (p : Peer) (u : FieldUpdate) : Option Refusal × Hub :=
  match h.clockRefusal? p u.clock with
  | some r => (some r, h)
  | none =>
    let b := h.bind p.id u.clock.replica
    (if b.policy.isOutputField u.field then none else some .lockedField, b)

/-- The others on a document are told of a write if it was news. -/
def news (h : Hub) (p : Peer) (u : FieldUpdate) (h' : Hub) : Agenda :=
  if (h.replica p.doc).isNews u then h'.notices p.doc p.id (.update p.doc 0 u) else []

def updatePlan (h : Hub) (p : Peer) (seq : Nat) (u : FieldUpdate) : Plan :=
  match h.verdict p u with
  | (some r, h) => { hub := h, first := [(p.id, r.toMessage), (p.id, .ack p.doc seq)] }
  | (none, _) => { hub := h.taken p u, first := [(p.id, .ack p.doc seq)], second := h.news p u }

/-- All of its document for a peer, and who else is present. -/
def welcomePlan (h : Hub) (p : Peer) : Plan where
  hub := h
  first := [(p.id, .syncState p.doc (h.replica p.doc).snapshot)]
  second := fun h' => h'.presences p

def plan (h : Hub) (id : Nat) (m : SyncMessage) : Plan :=
  match h.peer? id with
  | none => { hub := h }
  | some p =>
    if m.doc?.any (· != p.doc) then { hub := h, first := [(id, Refusal.otherDocument.toMessage)] }
    else match m with
      | .hello _ _ => h.welcomePlan p
      | .update _ seq u => h.updatePlan p seq u
      | .awareness _ _ state =>
        let h := { h with awareness := h.awareness.apply p.doc p.client state }
        { hub := h, first := h.notices p.doc p.id (.awareness p.doc p.client state) }
      | .syncState _ _ | .ack _ _ | .error _ _ =>
        { hub := h, first := [(id, Refusal.unexpectedKind.toMessage)] }

def Plan.run (q : Plan) : Hub :=
  let h := q.hub.sendEach q.first
  h.sendEach (q.second h)

/-- What an operation does, with the peers whose queues were full meanwhile. -/
inductive Performs : Hub → Event → List Nat → Hub → Prop
  | connected {h h' : Hub} {doc client : String} {id : Nat} :
      h.connect doc client = .ok (id, h') → Performs h (.connect doc client) [] h'
  | notConnected {h : Hub} {doc client : String} {e : Failure} :
      h.connect doc client = .error e → Performs h (.connect doc client) [] h
  | handled {h h₁ h' : Hub} {id : Nat} {m : SyncMessage} {full full' : List Nat} :
      Delivers (h.plan id m).hub (h.plan id m).first full h₁ →
      Delivers h₁ ((h.plan id m).second h₁) full' h' →
      Performs h (.handle id m) (full ++ full') h'
  | disconnected {h h' : Hub} {id : Nat} {full : List Nat} :
      Delivers (h.dropped id).1 (h.dropped id).2 full h' → Performs h (.disconnect id) full h'
  | read {h h' : Hub} {id : Nat} {m : SyncMessage} :
      h.takeNext id = some (m, h') → Performs h (.read id) [] h'
  | nothingToRead {h : Hub} {id : Nat} : h.takeNext id = none → Performs h (.read id) [] h
  | abandoned (h : Hub) (id : Nat) : Performs h (.abandon id) [] (h.abandon id)

/-- Runs of a relay that starts without documents and peers, with all peers whose queues were ever full. -/
inductive Runs (policy : SecurityPolicy) : List Event → List Nat → Hub → Prop
  | start : Runs policy [] [] { policy }
  | next {events : List Event} {e : Event} {full full' : List Nat} {h h' : Hub} :
      Runs policy events full h → Performs h e full' h' → Runs policy (events ++ [e]) (full ++ full') h'

variable {h h' h'' : Hub} {id : Nat} {m : SyncMessage} {e : Event} {full full' : List Nat}

/-! ### Plans are what is done -/

theorem welcome_eq (h : Hub) (p : Peer) : h.welcome p = (h.welcomePlan p).run := by
  unfold welcome Plan.run welcomePlan presences sendEach
  simp only [List.foldl_map]
  rfl

theorem receiveUpdate_eq (h : Hub) (p : Peer) (seq : Nat) (u : FieldUpdate) :
    h.receiveUpdate p seq u = (h.updatePlan p seq u).run := by
  unfold receiveUpdate updatePlan verdict
  cases h.clockRefusal? p u.clock with
  | some r => rfl
  | none =>
    dsimp only
    cases (h.bind p.id u.clock.replica).policy.isOutputField u.field with
    | false => rfl
    | true =>
      simp only [if_true, acceptUpdate_eq, broadcast_eq_sendEach, Plan.run, news]
      cases (h.replica p.doc).isNews u <;> rfl

theorem handle_eq_plan (h : Hub) (id : Nat) (m : SyncMessage) : h.handle id m = (h.plan id m).run := by
  unfold handle plan
  cases hp : h.peer? id with
  | none => rfl
  | some p =>
    dsimp only
    split
    · rfl
    · cases m with
      | hello d c => exact welcome_eq h p
      | update d seq u => exact receiveUpdate_eq h p seq u
      | awareness d c state => exact broadcast_eq_sendEach _ _ _ _
      | _ => rfl

/-- A write is refused, its peer bound or not, or it is taken. -/
theorem updatePlan_cases (h : Hub) (p : Peer) (seq : Nat) (u : FieldUpdate) :
    (∃ (r : Refusal) (g : Hub), (g = h ∨ g = h.bind p.id u.clock.replica) ∧
      h.updatePlan p seq u = { hub := g, first := [(p.id, r.toMessage), (p.id, .ack p.doc seq)] }) ∨
    h.updatePlan p seq u =
      { hub := h.taken p u, first := [(p.id, .ack p.doc seq)], second := h.news p u } := by
  unfold updatePlan verdict
  cases h.clockRefusal? p u.clock with
  | some r => exact .inl ⟨r, h, .inl rfl, rfl⟩
  | none =>
    dsimp only
    cases (h.bind p.id u.clock.replica).policy.isOutputField u.field with
    | false => exact .inl ⟨.lockedField, _, .inr rfl, rfl⟩
    | true => exact .inr rfl

/-! ### Every operation comes to an end, in one way -/

theorem performs_next (t : History) (e : Event) : ∃ full, Performs t.hub e full (t.next e).hub := by
  cases e with
  | connect doc client =>
    cases hc : t.hub.connect doc client with
    | ok x =>
      have hhub : (t.next (.connect doc client)).hub = x.2 := by simp only [History.next, hc]
      exact ⟨[], hhub ▸ .connected hc⟩
    | error x =>
      have hhub : (t.next (.connect doc client)).hub = t.hub := by simp only [History.next, hc]
      exact ⟨[], hhub.symm ▸ .notConnected hc⟩
  | handle id m =>
    obtain ⟨full, d⟩ := delivers_sendEach (t.hub.plan id m).hub (t.hub.plan id m).first
    obtain ⟨full', d'⟩ := delivers_sendEach _ ((t.hub.plan id m).second _)
    refine ⟨full ++ full', ?_⟩
    have hhub : (t.next (.handle id m)).hub = t.hub.handle id m := rfl
    rw [hhub, handle_eq_plan]
    exact .handled d d'
  | disconnect id =>
    obtain ⟨full, d⟩ := delivers_disconnect t.hub id
    exact ⟨full, .disconnected d⟩
  | read id =>
    cases ht : t.hub.takeNext id with
    | none =>
      have hhub : (t.next (.read id)).hub = t.hub := by simp only [History.next, ht]
      exact ⟨[], hhub.symm ▸ .nothingToRead ht⟩
    | some x =>
      have hhub : (t.next (.read id)).hub = x.2 := by simp only [History.next, ht]
      exact ⟨[], hhub ▸ .read ht⟩
  | abandon id => exact ⟨[], .abandoned t.hub id⟩

theorem Performs.unique (a : Performs h e full h') (b : Performs h e full' h'') : full' = full ∧ h'' = h' := by
  cases a with
  | connected hc => cases b with
    | connected hc' =>
      rw [hc] at hc'
      cases hc'
      exact ⟨rfl, rfl⟩
    | notConnected hc' =>
      rw [hc] at hc'
      cases hc'
  | notConnected hc => cases b with
    | connected hc' =>
      rw [hc] at hc'
      cases hc'
    | notConnected _ => exact ⟨rfl, rfl⟩
  | handled d₁ d₂ => cases b with
    | handled d₁' d₂' =>
      obtain ⟨rfl, rfl⟩ := d₁.unique d₁'
      obtain ⟨rfl, rfl⟩ := d₂.unique d₂'
      exact ⟨rfl, rfl⟩
  | disconnected d => cases b with
    | disconnected d' => exact d.unique d'
  | read ht => cases b with
    | read ht' =>
      rw [ht] at ht'
      cases ht'
      exact ⟨rfl, rfl⟩
    | nothingToRead ht' =>
      rw [ht] at ht'
      cases ht'
  | nothingToRead ht => cases b with
    | read ht' =>
      rw [ht] at ht'
      cases ht'
    | nothingToRead _ => exact ⟨rfl, rfl⟩
  | abandoned => cases b with
    | abandoned => exact ⟨rfl, rfl⟩

end Hub

namespace History

variable {policy : SecurityPolicy}

theorem after_append (policy : SecurityPolicy) (events later : List Event) :
    after policy (events ++ later) = later.foldl next (after policy events) :=
  List.foldl_append

theorem after_concat (policy : SecurityPolicy) (events : List Event) (e : Event) :
    after policy (events ++ [e]) = (after policy events).next e :=
  after_append policy events [e]

/-- A run by the rules ends where the relay does. -/
theorem hub_of_runs {events : List Event} {full : List Nat} {h : Hub} (r : Hub.Runs policy events full h) :
    h = (after policy events).hub := by
  induction r with
  | start => rfl
  | @next events e full full' h h' _ hstep ih =>
    subst ih
    obtain ⟨full'', hnext⟩ := Hub.performs_next (after policy events) e
    rw [after_concat]
    exact (hnext.unique hstep).2

/-- Which queues were full is settled by the events. -/
theorem full_of_runs {events : List Event} {full full' : List Nat} {h h' : Hub}
    (r : Hub.Runs policy events full h) (r' : Hub.Runs policy events full' h') : full' = full := by
  induction r generalizing full' h' with
  | start =>
    generalize hnone : ([] : List Event) = events at r'
    cases r' with
    | start => rfl
    | next => exact absurd hnone.symm (List.concat_ne_nil _ _)
  | @next events e first last h₀ _ hrun hstep ih =>
    generalize hsame : events ++ [e] = events' at r'
    cases r' with
    | start => exact absurd hsame (List.concat_ne_nil _ _)
    | @next events' e' first' last' h₀' _ hrun' hstep' =>
      obtain ⟨rfl, rfl⟩ := List.append_singleton_inj.1 hsame
      obtain rfl := (hub_of_runs hrun').trans (hub_of_runs hrun).symm
      rw [ih hrun', (hstep.unique hstep').1]

theorem runs_after (policy : SecurityPolicy) (events : List Event) :
    ∃ full, Hub.Runs policy events full (after policy events).hub := by
  induction events using List.reverseRecOn with
  | nil => exact ⟨[], .start⟩
  | append_singleton events e ih =>
    obtain ⟨full, r⟩ := ih
    obtain ⟨full', hstep⟩ := Hub.performs_next (after policy events) e
    rw [after_concat]
    exact ⟨full ++ full', r.next hstep⟩

end History

end SecureLayout.Collab
