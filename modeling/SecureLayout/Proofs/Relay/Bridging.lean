import SecureLayout.Proofs.Relay.Line

/-!
A session stands between a client and the hub. Main statement: whatever comes first, the hub handles what the
client's frames say and the client is sent what its queue holds, each in order and once; and however a session
ends, its peer is gone.
-/

namespace SecureLayout.Relay

open Collab (Event History Hub)
open Config (Application)
open Wire (SocketFrame SyncMessage)

variable {l : Line} {s : Session} {peer : Nat} {x : Signal} {o : Origin}

namespace Line

/-! ### What is written down -/

/-- Messages and frames agree, in both directions. -/
structure Faithful (peer : Nat) (l : Line) : Prop where
  /-- The hub handled what the client's frames say, in order. -/
  handled : l.passed peer = l.received.filterMap SocketFrame.message?
  /-- Every frame that could not be read was answered once. -/
  answered : texts .client l.sent = l.received.filterMap SocketFrame.complaint?
  /-- The client was sent what was taken from the queue, in order. -/
  forwarded : (l.taken peer).map SocketFrame.ofMessage = texts .queue l.sent ++ l.unsent.map SocketFrame.ofMessage
  /-- Only the message that a session ended with may not have gone out. -/
  unsent : l.unsent = [] ∨ l.session = none ∧ l.unsent.length = 1
  /-- The clock has nothing to say but at the end. -/
  timedOut : texts .clock l.sent = [] ∨
    l.session = none ∧ ∃ earlier, l.sent = earlier ++ [(.clock, timeoutFrame)] ∧ texts .clock earlier = []

theorem texts_meet (hs : l.session = some s) (x : Signal) (o : Origin) : texts o (l.meet x).sent =
    texts o l.sent ++
      if x.origin = o then (s.react l.server l.now x).1.frames.filter SocketFrame.isText else [] := by
  rw [meet_eq hs]
  simp

theorem passed_meet (hs : l.session = some s) (hpeer : s.peer = peer) (x : Signal) :
    (l.meet x).passed peer = l.passed peer ++ (s.react l.server l.now x).1.forHub.toList := by
  rw [meet_eq hs, passed, passed, hpeer]
  simp only [List.filterMap_append, Reaction.events]
  cases (s.react l.server l.now x).1.forHub <;> cases (s.react l.server l.now x).1.stays <;>
    simp [Event.messageOf?]

theorem taken_meet (l : Line) (x : Signal) (peer : Nat) : (l.meet x).taken peer = l.taken peer := by
  cases hs : l.session with
  | none => rw [meet_of_none hs]
  | some s =>
    rw [meet_eq hs, taken, taken, history, history, List.foldl_append, Reaction.events]
    cases (s.react l.server l.now x).1.forHub <;> cases (s.react l.server l.now x).1.stays <;> rfl

theorem received_meet (l : Line) (x : Signal) : (l.meet x).received = l.received ∧ (l.meet x).unsent = l.unsent := by
  cases hs : l.session with
  | none => rw [meet_of_none hs]; exact ⟨rfl, rfl⟩
  | some s => rw [meet_eq hs]; exact ⟨rfl, rfl⟩

/-- While the session goes on nothing is amiss yet. -/
theorem Faithful.going (h : l.Faithful peer) (hs : l.session = some s) :
    l.unsent = [] ∧ texts .clock l.sent = [] := by
  refine ⟨h.unsent.resolve_right fun hend => ?_, h.timedOut.resolve_right fun hend => ?_⟩
  · rw [hs] at hend
    cases hend.1
  · rw [hs] at hend
    cases hend.1

/-- A signal that neither brings a message nor calls for a text. -/
theorem Faithful.meet_still (h : l.Faithful peer) (hs : l.session = some s) (hpeer : s.peer = peer) {x : Signal}
    (hhub : (s.react l.server l.now x).1.forHub = none)
    (hframes : (s.react l.server l.now x).1.frames.filter SocketFrame.isText = []) : (l.meet x).Faithful peer := by
  obtain ⟨hunsent, hclock⟩ := h.going hs
  obtain ⟨hreceived, hsame⟩ := received_meet l x
  have htexts : ∀ o, texts o (l.meet x).sent = texts o l.sent := by
    intro o
    rw [texts_meet hs, hframes, ite_self, List.append_nil]
  refine ⟨?_, ?_, ?_, .inl (hsame.trans hunsent), .inl ((htexts _).trans hclock)⟩
  · rw [passed_meet hs hpeer, hhub, hreceived]
    exact (List.append_nil _).trans h.handled
  · rw [htexts, hreceived]
    exact h.answered
  · rw [taken_meet, htexts, hsame]
    exact h.forwarded

/-- Some signals never bring a message or call for a text. -/
theorem Faithful.meet_silent (h : l.Faithful peer) (ho : ∀ s ∈ l.session, s.peer = peer) (x : Signal)
    (hhub : ∀ s : Session, (s.react l.server l.now x).1.forHub = none)
    (hframes : ∀ s : Session, (s.react l.server l.now x).1.frames.filter SocketFrame.isText = []) :
    (l.meet x).Faithful peer := by
  cases hs : l.session with
  | none =>
    rw [meet_of_none hs]
    exact h
  | some s => exact h.meet_still hs (ho s hs) (hhub s) (hframes s)

/-- The look for idleness ends the session with its last frame, or nothing comes of it. -/
theorem Faithful.look (h : l.Faithful peer) (ho : ∀ s ∈ l.session, s.peer = peer) :
    (l.meet .quiet).Faithful peer := by
  cases hs : l.session with
  | none =>
    rw [meet_of_none hs]
    exact h
  | some s =>
    by_cases hidle : ({ s with waitingSince := l.now } : Session).isIdle l.server l.now = true
    · have hreact : s.react l.server l.now .quiet =
          ({ frames := [timeoutFrame], stays := false }, { s with waitingSince := l.now }) := by
        simp only [Session.react, hidle, if_true]
      obtain ⟨hunsent, hclock⟩ := h.going hs
      have hmeet : l.meet .quiet =
          { l with
            events := l.events ++ [.disconnect s.peer]
            session := none
            sent := l.sent ++ [(.clock, timeoutFrame)] } := by
        rw [meet_eq hs, hreact]
        rfl
      have hpassed := passed_meet hs (ho s hs) .quiet
      rw [hreact, hmeet] at hpassed
      have htaken := taken_meet l .quiet peer
      rw [hmeet] at htaken ⊢
      have hother : ∀ o, o ≠ .clock → texts o (l.sent ++ [(Origin.clock, timeoutFrame)]) = texts o l.sent := by
        intro o hne
        simp [texts, Ne.symm hne]
      refine ⟨?_, ?_, ?_, .inl hunsent, .inr ⟨rfl, l.sent, rfl, hclock⟩⟩
      · exact hpassed.trans ((List.append_nil _).trans h.handled)
      · exact (hother .client (by decide)).trans h.answered
      · rw [htaken]
        dsimp only
        rw [hother .queue (by decide)]
        exact h.forwarded
    · have hreact : s.react l.server l.now .quiet = ({}, { s with waitingSince := l.now }) := by
        simp only [Session.react, hidle, Bool.false_eq_true, if_false]
      refine h.meet_still hs (ho s hs) ?_ ?_ <;> rw [hreact]
      rfl

theorem filterMap_one {α β : Type} (g : α → Option β) (x : α) : [x].filterMap g = (g x).toList := by
  cases hx : g x <;> simp [hx]

/-- A frame is passed on, or answered, or neither. -/
theorem Faithful.hear (h : l.Faithful peer) (ho : ∀ s ∈ l.session, s.peer = peer) (f : SocketFrame) :
    (l.hear f).Faithful peer := by
  unfold Line.hear
  split
  · exact h
  · next s hs =>
    obtain ⟨hunsent, hclock⟩ := h.going hs
    have hs' : (l.receive f).session = some s := hs
    obtain ⟨hreceived, hsame⟩ := received_meet (l.receive f) (.incoming f)
    have hreceive : (l.receive f).received = l.received ++ [f] := rfl
    have hreact : (s.react (l.receive f).server (l.receive f).now (.incoming f)).1 = Session.ofFrame f := rfl
    have htexts : ∀ o, texts o ((l.receive f).meet (.incoming f)).sent =
        texts o l.sent ++ if Origin.client = o then f.complaint?.toList else [] := by
      intro o
      rw [texts_meet hs', hreact, texts_ofFrame]
      rfl
    refine ⟨?_, ?_, ?_, .inl (hsame.trans hunsent), .inl ?_⟩
    · rw [passed_meet hs' (ho s hs), hreact, forHub_ofFrame, hreceived, hreceive, List.filterMap_append,
        filterMap_one]
      exact congrArg (· ++ _) h.handled
    · rw [htexts, hreceived, hreceive, List.filterMap_append, filterMap_one, if_pos rfl, h.answered]
    · rw [taken_meet, htexts, hsame, if_neg (by decide), List.append_nil]
      exact h.forwarded
    · rw [htexts, if_neg (by decide), List.append_nil, hclock]

@[simp] theorem passed_take (l : Line) (peer : Nat) : (l.take peer).passed peer = l.passed peer := by
  simp [take, passed, Event.messageOf?]

theorem taken_take {m : SyncMessage} {hub : Hub} (ht : l.hub.takeNext peer = some (m, hub)) :
    (l.take peer).taken peer = l.taken peer ++ [m] := by
  have hnext : (l.take peer).history = l.history.next (.read peer) := by simp [take, history]
  rw [taken, hnext, History.next, ht]
  exact Function.update_self ..

/-- What is taken from the queue goes out, or the session ends with it. -/
theorem Faithful.deliver (h : l.Faithful peer) (hs : l.session = some s) (hpeer : s.peer = peer)
    {m : SyncMessage} {hub : Hub} (ht : l.hub.takeNext peer = some (m, hub)) (isTaken : Bool) :
    ((l.take peer).deliver m isTaken).Faithful peer := by
  obtain ⟨hunsent, hclock⟩ := h.going hs
  have hs' : (l.take peer).session = some s := hs
  have hforwarded : ((l.take peer).taken peer).map SocketFrame.ofMessage =
      texts .queue l.sent ++ [.ofMessage m] := by
    have hbefore := h.forwarded
    rw [hunsent, List.map_nil, List.append_nil] at hbefore
    rw [taken_take ht, List.map_append, hbefore]
    rfl
  unfold Line.deliver
  split
  · have htexts : ∀ o, texts o ((l.take peer).meet (.outgoing m)).sent =
        texts o l.sent ++ if Origin.queue = o then [SocketFrame.ofMessage m] else [] := fun o => texts_meet hs' _ o
    obtain ⟨hreceived, hsame⟩ := received_meet (l.take peer) (.outgoing m)
    have hnone : ((l.take peer).meet (.outgoing m)).unsent = [] := hsame.trans hunsent
    refine ⟨?_, ?_, ?_, .inl hnone, .inl ?_⟩
    · rw [passed_meet hs' hpeer, passed_take, hreceived]
      exact (List.append_nil _).trans h.handled
    · rw [htexts, hreceived, if_neg (by decide), List.append_nil]
      exact h.answered
    · rw [taken_meet, hforwarded, htexts, hnone, if_pos rfl, List.map_nil, List.append_nil]
    · rw [htexts, if_neg (by decide), List.append_nil, hclock]
  · have htexts : ∀ o, texts o ((l.take peer).meet (.refused m)).sent = texts o l.sent := by
      intro o
      refine (texts_meet hs' _ o).trans ?_
      have hframes : (s.react (l.take peer).server (l.take peer).now (.refused m)).1.frames = [] := rfl
      rw [hframes, List.filter_nil, ite_self, List.append_nil]
      rfl
    have hended : ((l.take peer).meet (.refused m)).session = none := by
      rw [meet_eq hs']
      rfl
    obtain ⟨hreceived, -⟩ := received_meet (l.take peer) (.refused m)
    have hone : (l.take peer).unsent ++ [m] = [m] := by
      rw [show (l.take peer).unsent = [] from hunsent, List.nil_append]
    refine ⟨?_, ?_, ?_, .inr ⟨hended, ?_⟩, .inl ((htexts _).trans hclock)⟩
    · refine (passed_meet hs' hpeer _).trans ((List.append_nil _).trans ?_)
      dsimp only
      rw [passed_take, hreceived]
      exact h.handled
    · refine (htexts _).trans ?_
      dsimp only
      rw [hreceived]
      exact h.answered
    · refine (congrArg _ (taken_meet (l.take peer) (.refused m) peer)).trans (hforwarded.trans ?_)
      dsimp only
      rw [htexts, hone]
      rfl
    · rw [hone]
      rfl

theorem Faithful.readQueue (h : l.Faithful peer) (ho : ∀ s ∈ l.session, s.peer = peer) (isTaken : Bool) :
    (l.readQueue isTaken).Faithful peer := by
  unfold Line.readQueue
  split
  · exact h
  · next s hs =>
    obtain rfl := ho s hs
    split
    · next m hub ht => exact h.deliver hs rfl ht isTaken
    · split
      · exact h.meet_silent ho .lost (fun _ => rfl) fun _ => rfl
      · exact h

/-- Of what others do only what they do in the peer's name would matter. -/
theorem Faithful.elsewhere (h : l.Faithful peer) {e : Event} (he : ¬ e.IsOwn peer) :
    (l.step (.elsewhere e)).Faithful peer := by
  have hpassed : (l.step (.elsewhere e)).passed peer = l.passed peer := by
    cases e with
    | handle i m =>
      have hi : ¬ i = peer := he
      simp [step, passed, Event.messageOf?, hi]
    | _ => simp [step, passed, Event.messageOf?]
  have htaken : (l.step (.elsewhere e)).taken peer = l.taken peer := by
    have hhistory : (l.step (.elsewhere e)).history = l.history.next e := by simp [step, history]
    rw [taken, hhistory, taken]
    cases e with
    | connect doc client => rw [History.next]; split <;> rfl
    | read i =>
      have hi : ¬ i = peer := he
      rw [History.next]
      split
      · exact Function.update_of_ne (Ne.symm hi) ..
      · rfl
    | _ => rfl
  exact ⟨hpassed.trans h.handled, h.answered, by rw [htaken]; exact h.forwarded, h.unsent, h.timedOut⟩

theorem Faithful.step (h : l.Faithful peer) (hs : l.Seated peer) {x : Happening}
    (hx : ∀ e, x = .elsewhere e → ¬ e.IsOwn peer) : (l.step x).Faithful peer := by
  cases x with
  | elsewhere e => exact h.elsewhere (hx e rfl)
  | queue isTaken => exact h.readQueue hs.owner isTaken
  | frame f => exact h.hear hs.owner f
  | streamEnd => exact h.meet_silent hs.owner .lost (fun _ => rfl) fun _ => rfl
  | ping => exact h.meet_silent hs.owner .pingDue (fun _ => rfl) fun _ => rfl
  | look => exact h.look hs.owner
  | pass span => exact ⟨h.handled, h.answered, h.forwarded, h.unsent, h.timedOut⟩

/-! ### Whole runs -/

/-- Nobody but the session acts for its peer. -/
def Undisturbed (peer : Nat) (happenings : List Happening) : Prop :=
  ∀ e, .elsewhere e ∈ happenings → ¬ e.IsOwn peer

theorem kept_run (hs : l.Seated peer) (hf : l.Faithful peer) {happenings : List Happening}
    (hu : Undisturbed peer happenings) : (l.run happenings).Seated peer ∧ (l.run happenings).Faithful peer := by
  induction happenings generalizing l with
  | nil => exact ⟨hs, hf⟩
  | cons x happenings ih =>
    refine ih (hs.step x) (hf.step hs fun e he => ?_) fun e he => hu e (List.mem_cons_of_mem _ he)
    exact hu e (he ▸ List.mem_cons_self)

/-- All that was put into a peer's queue since it connected, in order. -/
def enqueued (l : Line) (peer : Nat) : List SyncMessage :=
  l.taken peer ++ l.hub.mail peer

theorem events_meet (l : Line) (peer : Nat) (x : Signal) :
    ∃ es : List Event, (l.meet x).history = es.foldl History.next l.history ∧ .abandon peer ∉ es := by
  cases hs : l.session with
  | none => exact ⟨[], by rw [meet_of_none hs]; rfl, List.not_mem_nil⟩
  | some s =>
    refine ⟨(s.react l.server l.now x).1.events s.peer, history_meet hs x, ?_⟩
    unfold Reaction.events
    cases (s.react l.server l.now x).1.forHub <;> cases (s.react l.server l.now x).1.stays <;> simp

/-- No step gives the queue up. -/
theorem events_step (l : Line) (peer : Nat) {x : Happening} (hx : ∀ e, x = .elsewhere e → ¬ e.IsOwn peer) :
    ∃ es : List Event, (l.step x).history = es.foldl History.next l.history ∧ .abandon peer ∉ es := by
  cases x with
  | elsewhere e =>
    refine ⟨[e], by simp [step, history], fun hmem => hx e rfl ?_⟩
    rw [← List.mem_singleton.1 hmem]
    exact rfl
  | queue isTaken =>
    change ∃ es : List Event, (l.readQueue isTaken).history = _ ∧ _
    unfold readQueue
    split
    · exact ⟨[], rfl, List.not_mem_nil⟩
    · next s hs =>
      split
      · next m hub ht =>
        have htook : (l.take s.peer).history = l.history.next (.read s.peer) := by simp [take, history]
        have hpassed : ∃ x : Signal,
            ((l.take s.peer).deliver m isTaken).history = ((l.take s.peer).meet x).history := by
          unfold deliver
          split
          · exact ⟨_, rfl⟩
          · exact ⟨_, rfl⟩
        obtain ⟨x, hx⟩ := hpassed
        obtain ⟨es, hes, hnot⟩ := events_meet (l.take s.peer) peer x
        refine ⟨.read s.peer :: es, ?_, by simpa using hnot⟩
        rw [hx, hes, htook]
        rfl
      · split
        · exact events_meet l peer .lost
        · exact ⟨[], rfl, List.not_mem_nil⟩
  | frame f =>
    change ∃ es : List Event, (l.hear f).history = _ ∧ _
    unfold hear
    split
    · exact ⟨[], rfl, List.not_mem_nil⟩
    · exact events_meet (l.receive f) peer (.incoming f)
  | streamEnd => exact events_meet l peer .lost
  | ping => exact events_meet l peer .pingDue
  | look => exact events_meet l peer .quiet
  | pass span => exact ⟨[], rfl, List.not_mem_nil⟩

theorem enqueued_foldl {t : History} (hs : t.hub.Consistent) (hid : peer < t.hub.nextPeer) {es : List Event}
    (hes : .abandon peer ∉ es) : t.enqueued peer <+: (es.foldl History.next t).enqueued peer := by
  induction es generalizing t with
  | nil => exact List.prefix_rfl
  | cons e es ih =>
    obtain ⟨hs', hid', -⟩ := History.upkeep_next hs hid e
    have hne : e ≠ .abandon peer := fun he => hes (he ▸ List.mem_cons_self)
    refine (History.enqueued_next hs.toOrderly hid e hne).trans (ih hs' hid' fun h => hes ?_)
    exact List.mem_cons_of_mem _ h

/-- What was put into the queue is not lost from it: the queue only grows until it is read. -/
theorem enqueued_run (hs : l.Seated peer) {happenings : List Happening} (hu : Undisturbed peer happenings) :
    l.enqueued peer <+: (l.run happenings).enqueued peer := by
  induction happenings generalizing l with
  | nil => exact List.prefix_rfl
  | cons x happenings ih =>
    obtain ⟨es, hes, hnot⟩ := events_step l peer fun e he => hu e (he ▸ List.mem_cons_self)
    have hfirst : l.enqueued peer <+: (l.step x).enqueued peer := by
      have hgrows := enqueued_foldl hs.consistent hs.known hnot
      rwa [← hes] at hgrows
    exact hfirst.trans (ih (hs.step x) fun e he => hu e (List.mem_cons_of_mem _ he))

/-! ### Ends -/

/-- What ends a session. -/
inductive Ends (l : Line) (s : Session) : Happening → Prop
  | closed : Ends l s (.frame .close)
  | streamEnd : Ends l s .streamEnd
  | refused {m : SyncMessage} {hub : Hub} : l.hub.takeNext s.peer = some (m, hub) → Ends l s (.queue false)
  | idle : s.isIdle l.server l.now = true → Ends l s .look
  /-- The hub has dropped the peer, and all that it was sent before has gone out. -/
  | dropped {isTaken : Bool} : l.hub.isDrained s.peer = true → Ends l s (.queue isTaken)

theorem isDrained_iff (h : Hub) (id : Nat) : h.isDrained id = true ↔ h.takeNext id = none ∧ h.peer? id = none := by
  unfold Hub.isDrained Hub.hasMail Hub.takeNext Hub.mail
  cases h.mailbox? id with
  | none => simp
  | some b => cases hq : b.queue <;> simp [hq]

theorem session_meet (hs : l.session = some s) (x : Signal) :
    (l.meet x).session = none ↔ (s.react l.server l.now x).1.stays = false := by
  rw [meet_eq hs]
  cases (s.react l.server l.now x).1.stays <;> simp

theorem stays_ofFrame (f : SocketFrame) : (Session.ofFrame f).stays = false ↔ f = .close := by
  unfold Session.ofFrame
  cases f with
  | text t =>
    cases hd : SyncMessage.decode t <;> simp [SocketFrame.decode, hd, Except.map]
  | _ => simp [SocketFrame.decode]

/-- A session ends for these reasons and for no other. -/
theorem session_step (hs : l.session = some s) (x : Happening) : (l.step x).session = none ↔ l.Ends s x := by
  cases x with
  | elsewhere e =>
    refine ⟨fun h => ?_, nofun⟩
    rw [show (l.step (.elsewhere e)).session = l.session from rfl, hs] at h
    cases h
  | queue isTaken =>
    change (l.readQueue isTaken).session = none ↔ _
    unfold readQueue
    rw [hs]
    dsimp only
    split
    · next m hub ht =>
      have htook : (l.take s.peer).session = some s := hs
      have hfull : ¬ l.hub.isDrained s.peer = true := by
        rw [isDrained_iff, ht]
        simp
      cases isTaken with
      | true =>
        have hgoing : ((l.take s.peer).deliver m true).session ≠ none := by
          rw [deliver, if_pos rfl, Ne, session_meet htook]
          simp [Session.react]
        refine ⟨fun h => absurd h hgoing, ?_⟩
        rintro (- | - | - | - | hd)
        exact absurd hd hfull
      | false => exact ⟨fun _ => .refused ht, fun _ => (session_meet htook (.refused m)).2 rfl⟩
    · next ht =>
      split
      · next hp =>
        have hd : l.hub.isDrained s.peer = true := (isDrained_iff _ _).2 ⟨ht, Option.isNone_iff_eq_none.1 hp⟩
        exact ⟨fun _ => .dropped hd, fun _ => (session_meet hs .lost).2 rfl⟩
      · next hp =>
        rw [hs]
        refine ⟨nofun, ?_⟩
        rintro (- | - | htake | - | hd)
        · rw [ht] at htake
          cases htake
        · exact absurd (Option.isNone_iff_eq_none.2 ((isDrained_iff _ _).1 hd).2) hp
  | frame f =>
    change (l.hear f).session = none ↔ _
    have hs' : (l.receive f).session = some s := hs
    rw [hear_eq hs]
    refine (session_meet hs' (.incoming f)).trans ((stays_ofFrame f).trans ⟨?_, ?_⟩)
    · rintro rfl
      exact .closed
    · rintro ⟨⟩
      rfl
  | streamEnd => exact ⟨fun _ => .streamEnd, fun _ => (session_meet hs .lost).2 rfl⟩
  | ping =>
    refine ⟨fun h => ?_, nofun⟩
    have hstays := (session_meet hs .pingDue).1 h
    cases hstays
  | look =>
    refine (session_meet hs .quiet).trans ?_
    have hsame : ({ s with waitingSince := l.now } : Session).isIdle l.server l.now = s.isIdle l.server l.now := rfl
    cases hidle : s.isIdle l.server l.now with
    | true =>
      rw [hidle] at hsame
      simp only [Session.react, hsame, if_true, true_iff]
      exact .idle hidle
    | false =>
      rw [hidle] at hsame
      simp only [Session.react, hsame, Bool.false_eq_true, if_false]
      refine ⟨nofun, ?_⟩
      rintro (- | - | - | hd | -)
      rw [hidle] at hd
      cases hd
  | pass span =>
    refine ⟨fun h => ?_, nofun⟩
    rw [show (l.step (.pass span)).session = l.session from rfl, hs] at h
    cases h

/-! ### From the first moment on -/

/-- What a session does between its client and the hub. -/
structure Bridges (peer : Nat) (l : Line) : Prop extends Faithful peer l where
  /-- A frame that cannot be read is answered with one error, and the hub does not learn of it. -/
  unread : ∀ f error, l.session.isSome → f.decode = .error error →
    (l.step (.frame f)).hub = l.hub ∧ (l.step (.frame f)).sent = l.sent ++ [(.client, .ofFailure error)]
  /-- What is put into the queue stays there, in order, until it is taken. -/
  queued : ∀ more, Undisturbed peer more → l.enqueued peer <+: (l.run more).enqueued peer
  ends : ∀ s ∈ l.session, ∀ x, (l.step x).session = none ↔ l.Ends s x
  gone : l.session = none → l.hub.peer? peer = none ∧ ∀ doc, peer ∉ (l.hub.room doc).members
  /-- An endpoint goes on as the line does. -/
  shown : ∀ older client e x e', l.Shows older client e → e.undergo? client x = some e' →
    (l.step x).Shows older client e'

theorem step_unread (hs : l.session.isSome) {f : SocketFrame} {error : Failure} (hf : f.decode = .error error) :
    (l.step (.frame f)).hub = l.hub ∧ (l.step (.frame f)).sent = l.sent ++ [(.client, .ofFailure error)] := by
  obtain ⟨s, hs⟩ := Option.isSome_iff_exists.1 hs
  have hs' : (l.receive f).session = some s := hs
  have hreact : (s.react (l.receive f).server (l.receive f).now (.incoming f)).1 =
      { frames := [.ofFailure error] } := by
    simp only [Session.react, Session.ofFrame, hf]
  change (l.hear f).hub = l.hub ∧ (l.hear f).sent = _
  rw [hear_eq hs]
  constructor
  · rw [hub, history_meet hs', hreact]
    rfl
  · rw [meet_eq hs', hreact]
    rfl

theorem bridges_of_kept (hs : l.Seated peer) (hf : l.Faithful peer) : l.Bridges peer where
  toFaithful := hf
  unread _ _ hsome hd := step_unread hsome hd
  queued _ hu := enqueued_run hs hu
  ends _ hsome x := session_step hsome x
  gone hend := by
    refine ⟨hs.gone hend, fun doc hmem => ?_⟩
    obtain ⟨p, hp, -⟩ := (hs.consistent.mem_members_iff doc peer).1 hmem
    rw [hs.gone hend] at hp
    cases hp
  shown _ _ _ _ _ hshows hx := hshows.step hx

/-- The line of a new session: nothing has happened on it. -/
def opening (e : Endpoint) (peer : Nat) (hub : Hub) : Line :=
  { server := e.application.config.server, start := { hub }, now := e.now, session := some (.start peer e.now) }

theorem shows_opening (e : Endpoint) (client : String) (peer : Nat) (hub : Hub) :
    (opening e peer hub).Shows [] client ({ e with hub }.put client { session := some (.start peer e.now) }) := by
  refine ⟨?_, rfl, rfl, rfl⟩
  rw [Endpoint.put, Entries.get?_put, if_pos rfl]
  rfl

theorem seated_opening {e : Endpoint} {doc client : String} {hub : Hub} (he : e.hub.Consistent)
    (hc : e.hub.connect doc client = .ok (peer, hub)) : (opening e peer hub).Seated peer := by
  refine ⟨he.connect hc, ?_, ?_, nofun⟩
  · obtain ⟨-, hhub⟩ := Hub.connect_eq_ok hc
    change peer < hub.nextPeer
    rw [hhub]
    exact Nat.lt_succ_self peer
  · rintro s ⟨⟩
    rfl

theorem faithful_opening (e : Endpoint) (peer : Nat) (hub : Hub) : (opening e peer hub).Faithful peer :=
  ⟨rfl, rfl, rfl, .inl rfl, .inl rfl⟩

end Line

namespace Endpoint

variable {e : Endpoint} {q : CollabQuery} {user : String}

theorem open?_of_refused (hticket : e.application.resolveTicket q.ticket = .ok user) {error : Failure}
    (hc : e.hub.connect q.doc user = .error error) : e.open? q = ({ session := none }, e) := by
  simp [open?, hticket, hc]

theorem open?_of_connected (hticket : e.application.resolveTicket q.ticket = .ok user) {peer : Nat} {hub : Hub}
    (hc : e.hub.connect q.doc user = .ok (peer, hub)) :
    e.open? q = ({ session := some (.start peer e.now) }, { e with hub }) := by
  simp [open?, hticket, hc]

/-- Whoever comes with a valid ticket and a document has a session, if the ticket is for somebody. From then on,
in whatever order the client's frames, the hub's messages and the clock come and whatever others do, the session
bridges the two. -/
theorem session_bridges (a : Application) (earlier : List Event) (now : Nat) (others : Entries Connection)
    (q : CollabQuery) (user : String) (hticket : a.resolveTicket q.ticket = .ok user)
    (hdoc : Text.isBlankText q.doc = false) :
    let e : Endpoint :=
      { application := a, hub := (History.after a.policy earlier).hub, now, connections := others }
    (Text.isBlankText user = true ∧ e.open? q = ({ session := none }, e)) ∨
    ∃ peer hub, e.open? q = ({ session := some (.start peer now) }, { e with hub }) ∧
      hub.peer? peer = some { id := peer, doc := q.doc, client := user } ∧ hub.mail peer = [] ∧
      (∀ client, (Line.opening e peer hub).Shows [] client
        (({ e with hub } : Endpoint).put client { session := some (.start peer now) })) ∧
      ∀ happenings, Line.Undisturbed peer happenings → ((Line.opening e peer hub).run happenings).Bridges peer := by
  intro e
  have he : e.hub.Consistent := History.consistent_after a.policy earlier
  cases huser : Text.isBlankText user with
  | true =>
    have hc : e.hub.connect q.doc user = .error (.badRequest "client id must not be blank") := by
      simp [Hub.connect, hdoc, huser]
    exact .inl ⟨rfl, open?_of_refused hticket hc⟩
  | false =>
    obtain ⟨peer, hub, hc⟩ : ∃ peer hub, e.hub.connect q.doc user = .ok (peer, hub) := by
      rw [Hub.connect, hdoc, huser]
      exact ⟨_, _, rfl⟩
    refine .inr ⟨peer, hub, open?_of_connected hticket hc, ?_, ?_, fun client => Line.shows_opening e client peer hub,
      fun happenings hu => ?_⟩
    · rw [Hub.peer?_connect he.toOrderly hc, if_pos rfl]
    · rw [Hub.mail_connect he.toOrderly hc, if_pos rfl]
    · obtain ⟨hs, hf⟩ := Line.kept_run (Line.seated_opening he hc) (Line.faithful_opening e peer hub) hu
      exact Line.bridges_of_kept hs hf

/-- Ada has a ticket. -/
def guestList : Application :=
  { config := { version := 1, tickets := [("t", "ada")] }, policy := ⟨⟨none⟩, ⟨["output"]⟩, .empty, 10, 1000⟩ }

/-- Bob has a document open. -/
def occupied : Endpoint :=
  { application := guestList, hub := (History.after guestList.policy [.connect "d" "bob"]).hub }

/-- A client with a session is pinged, sends what cannot be read, hears of Bob and closes. -/
def visit : List Happening :=
  [.ping, .frame (.binary [0]), .elsewhere (.handle 1 (.awareness "d" "bob" (some (.bool true)))), .queue true,
    .frame .close]

theorem session_bridges_visit :
    guestList.resolveTicket "t" = .ok "ada" ∧ Text.isBlankText "d" = false ∧
      Line.Undisturbed 2 visit ∧
      ∃ hub, occupied.open? { doc := "d", ticket := "t" } =
          ({ session := some (.start 2 0) }, { occupied with hub }) ∧
        ((Line.opening occupied 2 hub).run visit).Bridges 2 ∧
        ((Line.opening occupied 2 hub).run visit).session = none ∧
        ((Line.opening occupied 2 hub).run visit).sent =
          [(.clock, .ping []), (.client, .ofFailure (.badRequest "binary frames are not supported")),
            (.queue, .ofMessage (.awareness "d" "bob" (some (.bool true))))] := by
  have hticket : guestList.resolveTicket "t" = .ok "ada" := rfl
  have hdoc : Text.isBlankText "d" = false := by decide
  have hundisturbed : Line.Undisturbed 2 visit := by
    intro e he
    simp only [visit, List.mem_cons, reduceCtorEq, Happening.elsewhere.injEq, List.not_mem_nil, or_false,
      false_or] at he
    subst he
    simp [Event.IsOwn]
  refine ⟨hticket, hdoc, hundisturbed, ?_⟩
  obtain ⟨hblank, -⟩ | ⟨peer, hub, hopen, -, -, -, hbridges⟩ :=
    session_bridges guestList [.connect "d" "bob"] 0 [] { doc := "d", ticket := "t" } "ada" hticket hdoc
  · exact absurd hblank (by decide)
  · have hpeer : 2 = peer := congrArg (fun x => (x.1.session.map (·.peer)).getD 0) hopen
    have hhub := congrArg (fun x => x.2.hub) hopen
    subst hpeer
    subst hhub
    exact ⟨_, hopen, hbridges visit hundisturbed, rfl, rfl⟩

end Endpoint

end SecureLayout.Relay
