import SecureLayout.Proofs.Collab.Connection
import SecureLayout.Proofs.Collab.Presence

/-!
What peers are shown of each other. A full queue ends a connection in the middle of a broadcast, and the others are
told at once that its client left; what of the broadcast is still to be sent comes after that. Main statement: in a run
in which no client that publishes a state loses one of its own connections over it, every peer that has announced
itself is shown just the clients that are present on its document, whichever other queues overflow,
`shown_eq_presence`; a message that finds room in every queue is never such a publication, `undisturbed_of_room`.
-/

namespace SecureLayout.Collab

open Json (Value)
open Wire (SyncMessage)

namespace Connection

/-- What messages show of a client: its state, or that it is not there. -/
def shown (client : String) (ms : List SyncMessage) : Option Value :=
  Entries.get? client (ms.foldl notePresence [])

/-- No message brings a state of the client. -/
def OnlyLeaves (client : String) (ms : List SyncMessage) : Prop :=
  ∀ m ∈ ms, ∀ s, presenceOf client m ≠ some (some s)

variable {client : String} {m : SyncMessage} {ms ms' more : List SyncMessage}

theorem shown_concat (client : String) (ms : List SyncMessage) (m : SyncMessage) :
    shown client (ms ++ [m]) = (presenceOf client m).getD (shown client ms) := by
  rw [shown, List.foldl_append]
  exact get?_notePresence client _ m

/-- What comes later does not depend on how it came to what is shown. -/
theorem shown_append_congr (h : shown client ms = shown client ms') (more : List SyncMessage) :
    shown client (ms ++ more) = shown client (ms' ++ more) := by
  induction more using List.reverseRecOn with
  | nil => rwa [List.append_nil, List.append_nil]
  | append_singleton more m ih =>
    rw [← List.append_assoc, ← List.append_assoc, shown_concat, shown_concat, ih]

theorem shown_append_of_silent (h : ∀ m ∈ more, presenceOf client m = none) (ms : List SyncMessage) :
    shown client (ms ++ more) = shown client ms := by
  induction more using List.reverseRecOn with
  | nil => rw [List.append_nil]
  | append_singleton more m ih =>
    rw [← List.append_assoc, shown_concat, h m (List.mem_append_right _ (List.mem_singleton_self m))]
    exact ih fun x hx => h x (List.mem_append_left _ hx)

/-- Whoever is not shown goes on not being shown. -/
theorem OnlyLeaves.shown_append (h : OnlyLeaves client more) (hnone : shown client ms = none) :
    shown client (ms ++ more) = none := by
  induction more using List.reverseRecOn with
  | nil => rwa [List.append_nil]
  | append_singleton more m ih =>
    rw [← List.append_assoc, shown_concat, ih fun x hx => h x (List.mem_append_left _ hx)]
    cases hm : presenceOf client m with
    | none => rfl
    | some state =>
      cases state with
      | none => rfl
      | some s => exact absurd hm (h m (List.mem_append_right _ (List.mem_singleton_self m)) s)

theorem OnlyLeaves.of_silent (h : ∀ m ∈ ms, presenceOf client m = none) : OnlyLeaves client ms :=
  fun m hm s hs => by cases (h m hm).symm.trans hs

theorem OnlyLeaves.append (h : OnlyLeaves client ms) (h' : OnlyLeaves client more) : OnlyLeaves client (ms ++ more) :=
  fun m hm => (List.mem_append.1 hm).elim (h m) (h' m)

/-- States of clients, each told once. -/
theorem shown_append_states {states : Entries Value} (hs : Entries.Sorted states) (doc : String)
    (ms : List SyncMessage) :
    shown client (ms ++ states.map fun s => .awareness doc s.1 (some s.2)) =
      (Entries.get? client states).or (shown client ms) := by
  induction states generalizing ms with
  | nil => simp
  | cons e states ih =>
    obtain ⟨c, s⟩ := e
    obtain ⟨hlater, hs⟩ := List.pairwise_cons.1 hs
    rw [List.map_cons, List.append_cons, ih hs, shown_concat, Entries.get?, presenceOf]
    by_cases hc : c = client
    · subst hc
      have hnone : Entries.get? c states = none :=
        Option.eq_none_iff_forall_ne_some.2 fun v hv => absurd (hlater _ (Entries.mem_of_get? hv)) (lt_irrefl c)
      simp [hnone]
    · simp [hc, Ne.symm hc]

end Connection

/-- The clients of every document stand in order. -/
def Awareness.Sorted (a : Awareness) : Prop :=
  ∀ doc, Entries.Sorted (a.states doc)

namespace Awareness.Sorted

variable {a : Awareness}

theorem update (h : a.Sorted) (doc : String) {states : Entries Value} (hs : Entries.Sorted states) :
    (a.update doc states).Sorted := by
  intro other
  rw [states_update]
  split
  · exact hs
  · exact h other

theorem leave (h : a.Sorted) (doc client : String) : (a.leave doc client).2.Sorted := by
  unfold Awareness.leave
  split
  · exact h.update doc (Entries.sorted_remove (h doc) client)
  · exact h

theorem apply (h : a.Sorted) (doc client : String) (state : Option Value) : (a.apply doc client state).Sorted := by
  cases state with
  | none => exact h.leave doc client
  | some s => exact h.update doc (Entries.sorted_put (h doc) client s)

end Awareness.Sorted

open Connection (OnlyLeaves presenceOf shown shown_concat)

namespace Hub

/-- What an agenda has for one peer. -/
def pending (i : Nat) (agenda : Agenda) : List SyncMessage :=
  (agenda.filter (·.1 == i)).map (·.2)

/-- Messages show of a client what the relay has of it on a document; before their reader asked for the document they
may show nothing instead. -/
def Tells (early : Prop) (h : Hub) (doc client : String) (ms : List SyncMessage) : Prop :=
  shown client ms = h.awareness.get? doc client ∨ early ∧ shown client ms = none

variable {h h₁ h' : Hub} {doc client own : String} {id i : Nat} {m : SyncMessage} {agenda : Agenda}
  {full : List Nat} {p q : Peer} {early : Prop} {base tail ms more : List SyncMessage}

theorem pending_cons (i id : Nat) (m : SyncMessage) (rest : Agenda) :
    pending i ((id, m) :: rest) = (if i = id then [m] else []) ++ pending i rest := by
  by_cases hi : i = id
  · simp [pending, hi]
  · simp [pending, hi, Ne.symm hi]

theorem mem_pending : m ∈ pending i agenda ↔ (i, m) ∈ agenda := by
  simp [pending]

theorem Tells.congr (a : Tells early h doc client ms) (hshown : shown client more = shown client ms)
    (hawareness : h'.awareness.get? doc client = h.awareness.get? doc client) : Tells early h' doc client more := by
  rw [Tells, hshown, hawareness]
  exact a

/-! ### A connection ends -/

theorem mail_dropped (h : Hub) (id i : Nat) : (h.dropped id).1.mail i = h.mail i := by
  obtain ⟨ms, hms, hnone⟩ := (sends_dropped h id).1.mail i
  rw [hms, List.eq_nil_iff_forall_not_mem.2 hnone, List.append_nil]

/-- With a connection its client leaves, and everybody else on the document is told if it was there. -/
theorem agenda_dropped (hp : h.peer? id = some p) :
    (h.dropped id).2 = if (h.awareness.get? p.doc p.client).isSome then
      (h.forget p).notices p.doc id (.awareness p.doc p.client none) else [] := by
  have hforget : (h.forget p).awareness = h.awareness := rfl
  have hcontains : Entries.contains p.client (h.awareness.states p.doc) = (h.awareness.get? p.doc p.client).isSome :=
    rfl
  cases hc : (h.awareness.get? p.doc p.client).isSome <;>
    simp [dropped, hp, hforget, Awareness.leave, hcontains, hc]

theorem pending_dropped (hs : h.Orderly) (hp : h.peer? id = some p) (hq : h.peer? i = some q) (hi : i ≠ id) :
    pending i (h.dropped id).2 =
      if (h.awareness.get? p.doc p.client).isSome ∧ q.doc = p.doc then [.awareness p.doc p.client none] else [] := by
  obtain ⟨-, rfl⟩ := peer?_eq_some hp
  have hstays : (h.forget p).peer? i = some q := (peer?_forget h p i).trans ((if_neg hi).trans hq)
  have htold := filter_notices ((sends_forget h p).orderly hs) hstays p.doc p.id (.awareness p.doc p.client none)
  rw [agenda_dropped hp]
  by_cases hc : (h.awareness.get? p.doc p.client).isSome
  · simp only [hi, ne_eq, not_false_eq_true, and_true] at htold
    simp only [hc, if_true, true_and]
    exact htold
  · simp only [hc, Bool.false_eq_true, if_false, false_and]
    rfl

theorem onlyLeaves_dropped (h : Hub) (id i : Nat) (client : String) :
    OnlyLeaves client (pending i (h.dropped id).2) := by
  intro m hm s
  cases hp : h.peer? id with
  | none =>
    rw [dropped_of_unknown hp] at hm
    cases hm
  | some p =>
    rw [agenda_dropped hp, mem_pending] at hm
    split at hm
    · obtain ⟨j, -, he⟩ := List.mem_map.1 hm
      obtain ⟨-, rfl⟩ := Prod.mk.inj he
      rw [presenceOf]
      split <;> simp
    · cases hm

/-- What is still to be sent agrees with the relay when a connection has ended, unless it brings a state of the very
client that has left. -/
theorem Tells.dropped (a : Tells early h doc client (ms ++ more)) (hs : h.Orderly) (hi : h.IsOn doc i)
    (hne : i ≠ id) (hsafe : OnlyLeaves client more ∨ ¬h.Links id doc client) :
    Tells early (h.dropped id).1 doc client (ms ++ (pending i (h.dropped id).2 ++ more)) := by
  obtain ⟨q, hq, rfl⟩ := hi
  cases hp : h.peer? id with
  | none =>
    rw [dropped_of_unknown hp]
    exact a
  | some p =>
    have hget : (h.dropped id).1.awareness.get? q.doc client =
        if q.doc = p.doc ∧ client = p.client then none else h.awareness.get? q.doc client := by
      rw [awareness_dropped hp, Awareness.get?_leave]
    have hpending := pending_dropped hs hp hq hne
    by_cases hleft : q.doc = p.doc ∧ client = p.client
    · -- Its leave comes first, and nothing after it brings it back.
      rw [if_pos hleft] at hget
      obtain ⟨hdoc, rfl⟩ := hleft
      have hmore : OnlyLeaves p.client more := hsafe.resolve_right fun hno => hno ⟨p, hp, hdoc.symm, rfl⟩
      refine .inl (Eq.trans ?_ hget.symm)
      by_cases hc : (h.awareness.get? p.doc p.client).isSome
      · rw [hpending, if_pos ⟨hc, hdoc⟩, ← List.append_assoc]
        refine hmore.shown_append ?_
        rw [shown_concat, presenceOf, if_pos rfl]
        rfl
      · rw [hpending, if_neg fun h => hc h.1, List.nil_append]
        rw [← hdoc] at hc
        rcases a with hshown | ⟨-, hnone⟩
        · exact hshown.trans (Option.not_isSome_iff_eq_none.1 hc)
        · exact hnone
    · rw [if_neg hleft] at hget
      refine a.congr ?_ hget
      rw [← List.append_assoc]
      refine Connection.shown_append_congr (Connection.shown_append_of_silent (fun m hm => ?_) ms) more
      rw [hpending] at hm
      split at hm
      · next hon =>
        rw [List.mem_singleton.1 hm, presenceOf, if_neg fun he => hleft ⟨hon.2, he.symm⟩]
      · cases hm

/-! ### Sending -/

theorem Leaves.ends_of_later (a : Leaves h h₁) (he : Ends h₁ h' doc client) : Ends h h' doc client := by
  obtain ⟨j, hl, hn⟩ := he
  exact ⟨j, a.linked j doc client hl, hn⟩

theorem Leaves.ends_of_earlier (a : Leaves h₁ h') (he : Ends h h₁ doc client) : Ends h h' doc client := by
  obtain ⟨j, hl, hn⟩ := he
  exact ⟨j, hl, mt (a.linked j doc client) hn⟩

theorem Sends.isOn {allowed : Nat → SyncMessage → Prop} (a : Sends allowed h h') (hs : h.Orderly)
    (hi : h'.IsOn doc i) : h.IsOn doc i := by
  obtain ⟨p, hp, hd⟩ := hi
  exact ⟨p, a.peer?_eq hs hp, hd⟩

/-- Once all is sent that agrees with the relay, what was sent agrees with it, whoever was dropped meanwhile. Either
nothing that was to be sent brings a state of the client, or none of the client's own connections ended over it. -/
theorem Delivers.tells (d : Delivers h agenda full h') (hs : h.Orderly) (hi : h'.IsOn doc i)
    (ho : h'.isClosed i = false)
    (hsafe : OnlyLeaves client (pending i agenda ++ tail) ∨ ¬Ends h h' doc client)
    (a : Tells early h doc client (base ++ h.mail i ++ (pending i agenda ++ tail))) :
    Tells early h' doc client (base ++ h'.mail i ++ tail) := by
  induction d generalizing tail with
  | done h => exact a
  | @queued h h₁ h' id m rest full he d ih =>
    have hopen := (Delivers.queued he d).sends.isClosed_before hs ho
    have hmail := (enqueue_eq_false hopen he).1
    have hs₁ := (sends_enqueue h id m).orderly hs
    obtain ⟨mailboxes, hboxes⟩ := enqueue_mailboxes h id m
    rw [he] at hboxes hs₁
    rw [pending_cons, List.append_assoc] at hsafe a
    refine ih hs₁ hi ho (hsafe.imp (fun hall x hx => hall x (List.mem_append_right _ hx)) fun hno => ?_) ?_
    · rw [show h₁ = _ from hboxes]
      exact hno
    · refine a.congr ?_ (by rw [show h₁ = _ from hboxes])
      rw [hmail]
      simp only [List.append_assoc]
  | @overflowed h h₁ h₂ h' id m rest full full' he ddrop drest ihdrop ihrest =>
    obtain ⟨rfl, -⟩ := enqueue_eq_true he
    have hs' := (sends_dropped h₁ id).1.orderly hs
    have hs₂ := ddrop.sends.orderly hs'
    have hleaves := leaves_dropped h₁ id
    have hne : i ≠ id := by
      rintro rfl
      obtain ⟨p, hp, -⟩ := hi
      cases hp.symm.trans ((Delivers.overflowed he ddrop drest).gone List.mem_cons_self).2
    have hi₂ := drest.sends.isOn hs₂ hi
    rw [pending_cons, if_neg hne, List.nil_append] at hsafe a
    -- What is told of the dropped peer goes in front of what is left to send.
    have hdropped : Tells early (h₁.dropped id).1 doc client
        (base ++ (h₁.dropped id).1.mail i ++ (pending i (h₁.dropped id).2 ++ (pending i rest ++ tail))) := by
      rw [mail_dropped]
      refine a.dropped hs ((sends_dropped h₁ id).1.isOn hs (ddrop.sends.isOn hs' hi₂)) hne
        (hsafe.imp_right fun hno hl => hno ?_)
      refine (ddrop.leaves.trans drest.leaves).ends_of_earlier ⟨id, hl, ?_⟩
      rintro ⟨p, hp, -⟩
      cases (peer?_dropped h₁ id).symm.trans hp
    have hpassed := ihdrop hs' hi₂ (drest.sends.isClosed_before hs₂ ho)
      (hsafe.imp (onlyLeaves_dropped h₁ id i client).append fun hno he =>
        hno (hleaves.ends_of_later (drest.leaves.ends_of_earlier he))) hdropped
    exact ihrest hs₂ hi ho
      (hsafe.imp_right fun hno he => hno ((hleaves.trans ddrop.leaves).ends_of_later he)) hpassed

theorem Delivers.tells_sent (d : Delivers h agenda full h') (hs : h.Orderly) (hi : h'.IsOn doc i)
    (ho : h'.isClosed i = false) (hsafe : OnlyLeaves client (pending i agenda) ∨ ¬Ends h h' doc client)
    (a : Tells early h doc client (base ++ h.mail i ++ pending i agenda)) :
    Tells early h' doc client (base ++ h'.mail i) := by
  rw [← List.append_nil (pending i agenda)] at hsafe a
  have htells := d.tells hs hi ho hsafe a
  rwa [List.append_nil] at htells

/-- Where no queue is too full no connection ends. -/
theorem Delivers.links_of_room (d : Delivers h agenda [] h') (j : Nat) (hl : h.Links j doc client) :
    h'.Links j doc client := by
  generalize hnone : ([] : List Nat) = full at d
  induction d with
  | done h => exact hl
  | @queued h h₁ h' id m rest full he _ ih =>
    obtain ⟨mailboxes, hboxes⟩ := enqueue_mailboxes h id m
    rw [he] at hboxes
    refine ih ?_ hnone
    rw [show h₁ = _ from hboxes]
    exact hl
  | overflowed => cases hnone

/-- If all is for one peer and that one is still there, no queue was too full. -/
theorem Delivers.full_eq_nil_of_own (d : Delivers h agenda full h') (hall : ∀ x ∈ agenda, x.1 = i)
    (hi : h'.IsOn doc i) : full = [] := by
  induction d with
  | done h => rfl
  | queued _ _ ih => exact ih (fun x hx => hall x (List.mem_cons_of_mem _ hx)) hi
  | overflowed he ddrop drest =>
    obtain ⟨p, hp, -⟩ := hi
    obtain rfl := hall _ List.mem_cons_self
    cases hp.symm.trans ((Delivers.overflowed he ddrop drest).gone List.mem_cons_self).2

/-! ### One message -/

theorem Tells.mono {later : Prop} (a : Tells early h doc client ms) (himp : early → later) :
    Tells later h doc client ms :=
  a.imp_right (And.imp_left himp)

theorem presenceOf_eq_none (client : String) (hm : ¬IsPresence m) : presenceOf client m = none := by
  cases m with
  | awareness d c s => exact absurd trivial hm
  | _ => rfl

/-- A message publishes presence, asks for a document, or has nothing to do with presence. -/
theorem plan_presence_cases (h : Hub) (id : Nat) (m : SyncMessage) :
    (∃ p named state, h.peer? id = some p ∧ m = .awareness p.doc named state ∧ h.plan id m =
      { hub := { h with awareness := h.awareness.apply p.doc p.client state }
        first := h.notices p.doc id (.awareness p.doc p.client state) }) ∨
    (∃ p c, h.peer? id = some p ∧ m = .hello p.doc c ∧ h.plan id m = h.welcomePlan p) ∨
    (h.plan id m).hub.awareness = h.awareness ∧ (∀ p c, h.peer? id = some p → m ≠ .hello p.doc c) ∧
      (∀ x ∈ (h.plan id m).first, ¬IsPresence x.2) ∧ ∀ h₁, ∀ x ∈ (h.plan id m).second h₁, ¬IsPresence x.2 := by
  unfold plan
  cases hp : h.peer? id with
  | none => exact .inr (.inr ⟨rfl, fun _ _ hq => (by cases hq), by simp, by simp⟩)
  | some p =>
    obtain ⟨-, rfl⟩ := peer?_eq_some hp
    dsimp only
    split
    · next hother =>
      refine .inr (.inr ⟨rfl, ?_, by simp [IsPresence, Refusal.toMessage], by simp⟩)
      rintro q c hq rfl
      cases hq
      simp [SyncMessage.doc?] at hother
    · next hown =>
      cases m with
      | awareness d c state =>
        obtain rfl : d = p.doc := by simpa [SyncMessage.doc?] using hown
        exact .inl ⟨p, c, state, rfl, rfl, rfl⟩
      | hello d c =>
        obtain rfl : d = p.doc := by simpa [SyncMessage.doc?] using hown
        exact .inr (.inl ⟨p, c, rfl, rfl, rfl⟩)
      | update d seq u =>
        refine .inr (.inr ?_)
        dsimp only
        rcases updatePlan_cases h p seq u with ⟨r, g, rfl | rfl, he⟩ | he <;> rw [he]
        · exact ⟨rfl, fun _ _ _ => SyncMessage.noConfusion, by simp [IsPresence, Refusal.toMessage], by simp⟩
        · exact ⟨rfl, fun _ _ _ => SyncMessage.noConfusion, by simp [IsPresence, Refusal.toMessage], by simp⟩
        · refine ⟨rfl, fun _ _ _ => SyncMessage.noConfusion, by simp [IsPresence], fun h₁ x hx => ?_⟩
          obtain ⟨j, -, rfl⟩ := List.mem_map.1 (mem_news hx)
          exact id
      | _ =>
        exact .inr (.inr ⟨rfl, fun _ _ _ => SyncMessage.noConfusion, by simp [IsPresence, Refusal.toMessage], by simp⟩)

theorem silent_pending (h : ∀ x ∈ agenda, ¬IsPresence x.2) (client : String) (i : Nat) :
    ∀ m ∈ pending i agenda, presenceOf client m = none :=
  fun _ hm => presenceOf_eq_none client (h _ (mem_pending.1 hm))

/-- Messages that say nothing of the client may be sent. -/
theorem Delivers.tells_of_silent (d : Delivers h agenda full h') (hs : h.Orderly) (hi : h'.IsOn doc i)
    (ho : h'.isClosed i = false) (hsilent : ∀ m ∈ pending i agenda, presenceOf client m = none)
    (a : Tells early h doc client (base ++ h.mail i)) : Tells early h' doc client (base ++ h'.mail i) :=
  d.tells_sent hs hi ho (.inl (.of_silent hsilent)) (a.congr (Connection.shown_append_of_silent hsilent _) rfl)

variable {state : Option Value}

/-- A state or a leave is told to all the others on the document. -/
theorem Delivers.tells_published
    (d : Delivers { h with awareness := h.awareness.apply p.doc p.client state }
      (h.notices p.doc id (.awareness p.doc p.client state)) full h')
    (hs : h.Orderly) (hp : h.peer? id = some p) (hi : h'.Links i doc own) (ho : h'.isClosed i = false)
    (hne : client ≠ own)
    (hquiet : ∀ s, state = some s → doc = p.doc → client = p.client → ¬Ends h h' doc client)
    (a : Tells early h doc client (base ++ h.mail i)) : Tells early h' doc client (base ++ h'.mail i) := by
  have hs₀ := (sends_awareness h (h.awareness.apply p.doc p.client state)).orderly hs
  obtain ⟨q, hq, hdoc, hown⟩ : h.Links i doc own := d.leaves.linked i doc own hi
  have hon : h'.IsOn doc i := hi.imp fun _ hr => ⟨hr.1, hr.2.1⟩
  have hpending : pending i (h.notices p.doc id (.awareness p.doc p.client state)) =
      if q.doc = p.doc ∧ i ≠ id then [.awareness p.doc p.client state] else [] := filter_notices hs hq p.doc id _
  have hget := h.awareness.get?_apply p.doc p.client state doc client
  by_cases hsame : doc = p.doc ∧ client = p.client
  · have hother : i ≠ id := by
      rintro rfl
      cases hp.symm.trans hq
      exact hne (hsame.2.trans hown)
    rw [if_pos ⟨hdoc.trans hsame.1, hother⟩] at hpending
    rw [if_pos hsame] at hget
    have hsafe : OnlyLeaves client [.awareness p.doc p.client state] ∨ ¬Ends h h' doc client := by
      cases hstate : state with
      | none => exact .inl (List.forall_mem_singleton.2 fun s => by rw [presenceOf]; split <;> simp)
      | some s => exact .inr (hquiet s hstate hsame.1 hsame.2)
    have htold : shown client (base ++ h.mail i ++ [.awareness p.doc p.client state]) = state := by
      rw [shown_concat, presenceOf, if_pos hsame.2.symm]
      rfl
    rw [← hpending] at hsafe htold
    exact d.tells_sent hs₀ hon ho hsafe (.inl (htold.trans hget.symm))
  · have hsilent : ∀ m ∈ pending i (h.notices p.doc id (.awareness p.doc p.client state)),
        presenceOf client m = none := by
      intro m hm
      rw [hpending] at hm
      split at hm
      · next hboth =>
        rw [List.mem_singleton.1 hm, presenceOf, if_neg fun he => hsame ⟨hdoc.symm.trans hboth.1, he.symm⟩]
      · cases hm
    rw [if_neg hsame] at hget
    exact d.tells_of_silent hs₀ hon ho hsilent (a.congr rfl hget)

/-- Whoever asks for its document is told of everybody else who is present on it. -/
theorem tells_welcomed {full' : List Nat} (d : Delivers h (h.welcomePlan p).first full h₁)
    (d' : Delivers h₁ ((h.welcomePlan p).second h₁) full' h') (hs : h.Orderly) (hp : h.peer? id = some p)
    (hsorted : Entries.Sorted (h₁.awareness.states p.doc)) (hi : h'.Links i doc own) (ho : h'.isClosed i = false)
    (hne : client ≠ own) (a : Tells early h doc client (base ++ h.mail i)) :
    Tells (early ∧ i ≠ id) h' doc client (base ++ h'.mail i) := by
  obtain ⟨-, rfl⟩ := peer?_eq_some hp
  have hs₁ := d.sends.orderly hs
  have hon : h'.IsOn doc i := hi.imp fun _ hr => ⟨hr.1, hr.2.1⟩
  have hon₁ := d'.sends.isOn hs₁ hon
  have hfirst := d.tells_of_silent hs hon₁ (d'.sends.isClosed_before hs₁ ho)
    (silent_pending (by simp [welcomePlan, IsPresence]) client i) a
  by_cases hself : i = p.id
  · subst hself
    obtain ⟨q, hq, hdoc, hown⟩ := (d.leaves.trans d'.leaves).linked p.id doc own hi
    cases hp.symm.trans hq
    have hpresences : pending p.id (h₁.presences p) =
        (Entries.remove p.client (h₁.awareness.states p.doc)).map fun s => .awareness p.doc s.1 (some s.2) := by
      have hall : (Prod.fst · == p.id) ∘ (fun s : String × Value => (p.id, SyncMessage.awareness p.doc s.1 (some s.2))) =
          fun _ => true := funext fun _ => beq_self_eq_true p.id
      rw [pending, presences, List.filter_map, hall, List.filter_true, List.map_map]
      rfl
    have htold : shown client (base ++ h₁.mail p.id ++ pending p.id (h₁.presences p)) =
        h₁.awareness.get? p.doc client := by
      rw [hpresences, Connection.shown_append_states (Entries.sorted_remove hsorted p.client), Entries.get?_remove,
        if_neg (hown ▸ hne)]
      change (h₁.awareness.get? p.doc client).or _ = _
      subst hdoc
      rcases hfirst with hshown | ⟨-, hnone⟩
      · rw [hshown, Option.or_self]
      · rw [hnone, Option.or_none]
    have hstay : ¬Ends h₁ h' doc client := by
      rintro ⟨j, hl, hn⟩
      have hroom := d'.full_eq_nil_of_own (fun x hx => ?_) hon
      · subst hroom
        exact hn (d'.links_of_room j hl)
      · obtain ⟨s, -, rfl⟩ := List.mem_map.1 hx
        rfl
    rw [hdoc] at htold
    exact d'.tells_sent hs₁ hon ho (.inr hstay) (.inl htold)
  · have hnone : pending i ((h.welcomePlan p).second h₁) = [] := by
      refine List.eq_nil_iff_forall_not_mem.2 fun m hm => ?_
      obtain ⟨s, -, he⟩ := List.mem_map.1 (mem_pending.1 hm)
      exact hself (Prod.mk.inj he).1.symm
    have hsecond := d'.tells_of_silent hs₁ hon ho (by rw [hnone]; simp) hfirst
    exact hsecond.mono fun hearly => ⟨hearly, hself⟩

theorem sorted_dropped (hsorted : h.awareness.Sorted) (id : Nat) : (h.dropped id).1.awareness.Sorted := by
  cases hp : h.peer? id with
  | none =>
    rw [dropped_of_unknown hp]
    exact hsorted
  | some p =>
    rw [awareness_dropped hp]
    exact hsorted.leave p.doc p.client

theorem Delivers.sorted (d : Delivers h agenda full h') (hsorted : h.awareness.Sorted) : h'.awareness.Sorted := by
  induction d with
  | done h => exact hsorted
  | @queued h h₁ h' id m rest full he _ ih =>
    obtain ⟨mailboxes, hboxes⟩ := enqueue_mailboxes h id m
    rw [he] at hboxes
    refine ih ?_
    rw [show h₁ = _ from hboxes]
    exact hsorted
  | @overflowed h h₁ h₂ h' id m rest full full' he _ _ ihdrop ihrest =>
    obtain ⟨rfl, -⟩ := enqueue_eq_true he
    exact ihrest (ihdrop (sorted_dropped hsorted id))

theorem sorted_plan (hsorted : h.awareness.Sorted) (id : Nat) (m : SyncMessage) :
    (h.plan id m).hub.awareness.Sorted := by
  rcases awareness_plan h id m with ⟨p, named, state, -, -, he⟩ | ⟨-, he⟩
  · rw [he]
    exact hsorted.apply p.doc p.client state
  · rw [he]
    exact hsorted

theorem Performs.sorted {e : Event} (a : Performs h e full h') (hsorted : h.awareness.Sorted) :
    h'.awareness.Sorted := by
  cases a with
  | connected hc =>
    rw [(connect_eq_ok hc).2]
    exact hsorted
  | notConnected _ => exact hsorted
  | handled d d' => exact d'.sorted (d.sorted (sorted_plan hsorted _ _))
  | @disconnected _ id _ d => exact d.sorted (sorted_dropped hsorted id)
  | read ht =>
    obtain ⟨r, -, rfl⟩ := takeNext_eq_some ht
    exact hsorted
  | nothingToRead _ => exact hsorted
  | abandoned => exact hsorted

/-- Whatever a message makes the relay send, what was sent to a peer agrees with the relay after it as before, and from
the announcement of the peer on in any case. -/
theorem tells_handled {full' : List Nat} (d : Delivers (h.plan id m).hub (h.plan id m).first full h₁)
    (d' : Delivers h₁ ((h.plan id m).second h₁) full' h') (hs : h.Consistent) (hsorted : h.awareness.Sorted)
    (hi : h'.Links i doc own) (ho : h'.isClosed i = false) (hne : client ≠ own)
    (hquiet : ∀ s, h.Publishes (.handle id m) id doc client (some s) → ¬Ends h h' doc client)
    (a : Tells early h doc client (base ++ h.mail i)) :
    Tells (early ∧ ∀ c, i = id → m ≠ .hello doc c) h' doc client (base ++ h'.mail i) := by
  have hs₀ := (hs.plan id m).toOrderly
  have hs₁ := d.sends.orderly hs₀
  have hon : h'.IsOn doc i := hi.imp fun _ hr => ⟨hr.1, hr.2.1⟩
  have hsorted₁ := d.sorted (sorted_plan hsorted id m)
  rcases plan_presence_cases h id m with ⟨p, named, state, hp, rfl, hplan⟩ | ⟨p, c, hp, rfl, hplan⟩ | ⟨hsame, hno, hfirst, hsecond⟩
  · rw [hplan] at d d'
    cases d'
    refine (d.tells_published hs.toOrderly hp hi ho hne (fun s hs hdoc hclient => ?_) a).mono fun hearly =>
      ⟨hearly, fun _ _ => SyncMessage.noConfusion⟩
    subst hdoc hclient hs
    exact hquiet s ⟨named, rfl, p, hp, rfl, rfl⟩
  · rw [hplan] at d d'
    refine (tells_welcomed d d' hs.toOrderly hp (hsorted₁ p.doc) hi ho hne a).mono fun hearly =>
      ⟨hearly.1, fun _ hself => absurd hself hearly.2⟩
  · have hplanned : Tells early (h.plan id m).hub doc client (base ++ (h.plan id m).hub.mail i) := by
      rw [mail_plan]
      exact a.congr rfl (by rw [hsame])
    have hon₁ := d'.sends.isOn hs₁ hon
    have htells := d'.tells_of_silent hs₁ hon ho (silent_pending (hsecond h₁) client i)
      (d.tells_of_silent hs₀ hon₁ (d'.sends.isClosed_before hs₁ ho) (silent_pending hfirst client i) hplanned)
    refine htells.mono fun hearly => ⟨hearly, fun c hself => ?_⟩
    obtain ⟨q, hq, rfl, -⟩ : h.Links i doc own :=
      (links_plan h id m i doc own).1 ((d.leaves.trans d'.leaves).linked i doc own hi)
    exact hno q c (hself ▸ hq)

end Hub

namespace History

variable {t : History} {policy : SecurityPolicy} {id : Nat} {doc : String}

/-- No client that publishes a state loses one of its own connections to the document over it. -/
def Undisturbed (t : History) (e : Event) : Prop :=
  ∀ id doc client s, t.hub.Publishes e id doc client (some s) → ¬Hub.Ends t.hub (t.next e).hub doc client

/-- Where no queue is too full nobody loses a connection over what it sends. -/
theorem undisturbed_of_room {e : Event} (a : Hub.Performs t.hub e [] (t.next e).hub) : t.Undisturbed e := by
  rintro id doc client s ⟨named, rfl, -⟩ ⟨j, hl, hn⟩
  generalize hnone : ([] : List Nat) = full at a
  cases a with
  | handled d d' =>
    obtain ⟨rfl, rfl⟩ := List.append_eq_nil_iff.1 hnone.symm
    exact hn (d'.links_of_room j (d.links_of_room j ((Hub.links_plan t.hub id _ j doc client).2 hl)))

/-- What every peer whose queue is read was shown of the others. -/
def Shows (t : History) : Prop :=
  ∀ i doc own client, t.hub.Links i doc own → t.hub.isClosed i = false → client ≠ own →
    Hub.Tells (¬t.Announced i doc) t.hub doc client (t.enqueued i)

variable {t' : History} {i : Nat} {own client : String}

theorem Shows.of_same (a : t.Shows) (hi : t.hub.Links i doc own) (ho : t.hub.isClosed i = false)
    (hne : client ≠ own) (hsaid : t'.said i = t.said i) (henqueued : t'.enqueued i = t.enqueued i)
    (hawareness : t'.hub.awareness = t.hub.awareness) :
    Hub.Tells (¬t'.Announced i doc) t'.hub doc client (t'.enqueued i) := by
  have hbefore := a i doc own client hi ho hne
  unfold Announced at hbefore ⊢
  rw [hsaid, henqueued]
  exact hbefore.congr rfl (by rw [hawareness])

theorem Shows.connect (a : t.Shows) (s : t.Settled relayReplica) {doc' client' : String} {new : Nat} {hub : Hub}
    (hc : t.hub.connect doc' client' = .ok (new, hub)) : Shows { t with hub } := by
  intro i doc own client hi ho hne
  obtain ⟨p, hp, hdoc, hown⟩ := hi
  change hub.peer? i = some p at hp
  have hmail := Hub.mail_connect s.orderly hc i
  rw [Hub.peer?_connect s.orderly hc] at hp
  by_cases hnew : i = new
  · obtain ⟨hsaid, hheard⟩ := s.unused i (hnew.trans (Hub.connect_eq_ok hc).1).ge
    have henqueued : History.enqueued { t with hub } i = [] := by
      rw [enqueued, hheard, hmail, if_pos hnew]
      rfl
    rw [henqueued]
    refine .inr ⟨?_, rfl⟩
    rintro ⟨c, hmem⟩
    rw [hsaid] at hmem
    cases hmem
  · rw [if_neg hnew] at hp hmail
    have hopen : t.hub.isClosed i = false := by
      refine (Hub.isClosed_congr ?_ ?_).symm.trans ho
      · rw [Hub.peer?_connect s.orderly hc, if_neg hnew]
      · rw [Hub.mailbox?_connect s.orderly hc, if_neg hnew]
    refine a.of_same ⟨p, hp, hdoc, hown⟩ hopen hne rfl ?_ ?_
    · exact congrArg (t.heard i ++ ·) hmail
    · rw [(Hub.connect_eq_ok hc).2]
      rfl

theorem isClosed_plan (h : Hub) (id : Nat) (m : SyncMessage) (i : Nat) :
    (h.plan id m).hub.isClosed i = h.isClosed i := by
  rcases Hub.plan_hub h id m with he | ⟨p, -, ⟨u, he | he⟩ | ⟨state, he⟩⟩ <;> rw [he]
  · exact Hub.isClosed_bind h p.id _ i
  · exact Hub.isClosed_taken h p u i
  · rfl

theorem Shows.handle (a : t.Shows) (hs : t.hub.Consistent) (hsorted : t.hub.awareness.Sorted) {id : Nat}
    {m : SyncMessage} (hquiet : t.Undisturbed (.handle id m)) : (t.next (.handle id m)).Shows := by
  intro i doc own client hi ho hne
  obtain ⟨full, d⟩ := Hub.delivers_sendEach (t.hub.plan id m).hub (t.hub.plan id m).first
  obtain ⟨full', d'⟩ := Hub.delivers_sendEach _ ((t.hub.plan id m).second _)
  have hhub : (t.next (.handle id m)).hub = (t.hub.plan id m).run := Hub.handle_eq_plan t.hub id m
  have hs₀ := (hs.plan id m).toOrderly
  have hopen : t.hub.isClosed i = false := by
    rw [← isClosed_plan t.hub id m]
    rw [hhub] at ho
    exact d.sends.isClosed_before hs₀ (d'.sends.isClosed_before (d.sends.orderly hs₀) ho)
  have hlinks : t.hub.Links i doc own := by
    rw [hhub] at hi
    exact (Hub.links_plan t.hub id m i doc own).1 ((d.leaves.trans d'.leaves).linked i doc own hi)
  have hquiet' := fun s hpub => hhub ▸ hquiet id doc client s hpub
  rw [hhub] at hi ho
  have htells := Hub.tells_handled d d' hs hsorted hi ho hne hquiet' (a i doc own client hlinks hopen hne)
  rw [enqueued, hhub]
  refine htells.mono ?_
  rintro ⟨hearly, hother⟩ ⟨c, hc⟩
  by_cases hself : i = id
  · subst hself
    obtain ⟨p, hp, -⟩ := hlinks
    rw [said_handle hp, List.mem_append, List.mem_singleton] at hc
    rcases hc with hc | rfl
    · exact hearly ⟨c, hc⟩
    · exact hother c rfl rfl
  · rw [said_handle_of_ne hself] at hc
    exact hearly ⟨c, hc⟩

theorem Shows.disconnect (a : t.Shows) (hs : t.hub.Consistent) (id : Nat) : (t.next (.disconnect id)).Shows := by
  intro i doc own client hi ho hne
  obtain ⟨full, d⟩ := Hub.delivers_disconnect t.hub id
  change (t.hub.disconnect id).Links i doc own at hi
  change (t.hub.disconnect id).isClosed i = false at ho
  have hother : i ≠ id := by
    rintro rfl
    obtain ⟨p, hp, -⟩ := hi
    cases hp.symm.trans (Hub.peer?_disconnect t.hub i)
  have hdropped := (Hub.sends_dropped t.hub id).1
  have hs' := hdropped.orderly hs.toOrderly
  have hlinks : t.hub.Links i doc own := ((Hub.leaves_dropped t.hub id).trans d.leaves).linked i doc own hi
  have hopen := hdropped.isClosed_before hs.toOrderly (d.sends.isClosed_before hs' ho)
  have hbefore := a i doc own client hlinks hopen hne
  unfold enqueued at hbefore
  rw [← List.append_nil (t.heard i ++ _)] at hbefore
  have hleft := hbefore.dropped hs.toOrderly (hlinks.imp fun _ hr => ⟨hr.1, hr.2.1⟩) hother (.inl nofun)
  rw [← Hub.mail_dropped t.hub id i] at hleft
  rw [List.append_nil] at hleft
  exact d.tells_sent hs' (hi.imp fun _ hr => ⟨hr.1, hr.2.1⟩) ho
    (.inl (Hub.onlyLeaves_dropped t.hub id i client)) hleft

theorem Shows.read (a : t.Shows) (id : Nat) : (t.next (.read id)).Shows := by
  unfold next
  dsimp only
  split
  · next m hub ht =>
    obtain ⟨r, -, rfl⟩ := Hub.takeNext_eq_some ht
    have hf : ∀ b : Mailbox, ({ b with queue := r } : Mailbox).owner = b.owner := fun _ => rfl
    intro i doc own client hi ho hne
    have hsame : (t.hub.updateMailbox id fun b => { b with queue := r }).isClosed i = t.hub.isClosed i :=
      Hub.isClosed_congr rfl (Hub.isRead_updateMailbox t.hub id i _ fun _ => ⟨rfl, rfl⟩)
    refine a.of_same hi (hsame.symm.trans ho) hne rfl ?_ rfl
    unfold enqueued
    dsimp only
    by_cases hself : i = id
    · subst hself
      rw [Function.update_self, List.append_assoc, Hub.mail_takeNext ht]
      rfl
    · rw [Function.update_of_ne hself, Hub.mail_updateMailbox t.hub id i _ hf hself]
  · exact a

theorem Shows.abandon (a : t.Shows) (id : Nat) : (t.next (.abandon id)).Shows := by
  intro i doc own client hi ho hne
  have hf : ∀ b : Mailbox, ({ b with queue := [], isRead := false } : Mailbox).owner = b.owner := fun _ => rfl
  have hbox := Hub.mailbox?_updateMailbox t.hub id i _ hf
  change (t.hub.abandon id).isClosed i = false at ho
  have hother : i ≠ id := by
    rintro rfl
    obtain ⟨-, b, hb, hr⟩ := Hub.isClosed_eq_false.1 ho
    rw [Hub.abandon, hbox, if_pos rfl] at hb
    obtain ⟨b', -, rfl⟩ := Option.map_eq_some_iff.1 hb
    cases hr
  rw [if_neg hother] at hbox
  have hopen : t.hub.isClosed i = false := by
    rw [← ho]
    refine Hub.isClosed_congr rfl ?_
    rw [Hub.abandon, hbox]
  refine a.of_same hi hopen hne rfl ?_ rfl
  unfold enqueued next Hub.abandon
  dsimp only
  rw [Hub.mail_updateMailbox t.hub id i _ hf hother]

theorem Shows.next (a : t.Shows) (s : t.Settled relayReplica) (hs : t.hub.Consistent)
    (hsorted : t.hub.awareness.Sorted) (e : Event) (hquiet : t.Undisturbed e) : (t.next e).Shows := by
  cases e with
  | connect doc client =>
    unfold History.next
    dsimp only
    split
    · next hc => exact a.connect s hc
    · exact a
  | handle id m => exact a.handle hs hsorted hquiet
  | disconnect id => exact a.disconnect hs id
  | read id => exact a.read id
  | abandon id => exact a.abandon id

theorem sorted_after (policy : SecurityPolicy) (events : List Event) :
    (after policy events).hub.awareness.Sorted := by
  induction events using List.reverseRecOn with
  | nil => exact fun _ => .nil
  | append_singleton events e ih =>
    obtain ⟨full, a⟩ := Hub.performs_next (after policy events) e
    rw [after_concat]
    exact a.sorted ih

/-- Every peer whose queue is read and that has asked for its document is shown, by all presence put into its queue
since it connected, just the other clients that are present there with just the states that they have, unless a client
lost one of its own connections while it was publishing a state. -/
theorem shown_eq_presence (policy : SecurityPolicy) (events : List Event)
    (hquiet : ∀ before e, before ++ [e] <+: events → (after policy before).Undisturbed e) {p : Peer}
    (hp : (after policy events).hub.peer? id = some p) (ho : (after policy events).hub.isClosed id = false)
    (ha : (after policy events).Announced id p.doc) {client : String} (hne : client ≠ p.client) :
    Entries.get? client (((after policy events).enqueued id).foldl Connection.notePresence []) =
      (after policy events).hub.awareness.get? p.doc client := by
  have hshows : (after policy events).Shows := by
    clear hp ho ha
    induction events using List.reverseRecOn with
    | nil =>
      rintro i doc own client ⟨p, hp, -⟩
      cases hp
    | append_singleton events e ih =>
      rw [after_concat]
      exact (ih fun before e' hpre => hquiet before e' (hpre.trans (List.prefix_append _ _))).next
        (settled_after policy events relayReplica) (consistent_after policy events) (sorted_after policy events) e
        (hquiet events e List.prefix_rfl)
  rcases hshows id p.doc p.client client ⟨p, hp, rfl, rfl⟩ ho hne with hshown | ⟨hearly, -⟩
  · exact hshown
  · exact absurd ha hearly

end History

end SecureLayout.Collab
