import SecureLayout.Proofs.Relay.Bridging

/-!
When an idle client is noticed. A session's timers run out when they are due, and whatever the session stops waiting
for puts its next look for idleness off. Main statements: if the hub has nothing for a silent client, its session ends
soon after it is due; as long as the hub keeps sending, it does not end at all.
-/

namespace SecureLayout.Relay

open Collab (Event History Hub)
open Config (ServerSettings)
open Wire (SocketFrame SyncMessage)

namespace Session

variable {server : ServerSettings} {now : Nat} {s : Session}

@[simp] theorem waitingSince_react (server : ServerSettings) (now : Nat) (s : Session) (x : Signal) :
    (s.react server now x).2.waitingSince = now := by
  cases x with
  | quiet => unfold react; dsimp only; split <;> rfl
  | _ => rfl

theorem nextPing_react (server : ServerSettings) (now : Nat) (s : Session) (x : Signal) :
    (s.react server now x).2.nextPing = s.nextPing ∨
      (s.react server now x).2.nextPing = now + server.pingInterval := by
  cases x with
  | quiet => unfold react; dsimp only; split <;> exact .inl rfl
  | pingDue => exact .inr rfl
  | _ => exact .inl rfl

theorem le_nextTimer_iff {time : Nat} : time ≤ s.nextTimer.1 ↔ time ≤ s.nextPing ∧ time ≤ s.nextLook := by
  unfold nextTimer
  split <;> dsimp only <;> omega

end Session

namespace Line

variable {l : Line} {s : Session} {x : Happening} {happenings more : List Happening}

/-! ### Timers -/

/-- Something holds of every step of a run. -/
def Throughout (P : Line → Happening → Prop) : Line → List Happening → Prop
  | _, [] => True
  | l, x :: happenings => P l x ∧ Throughout P (l.step x) happenings

/-- No timer runs out before it is due, and time does not pass one that is due. -/
def Timely (l : Line) : Happening → Prop
  | .ping => ∀ s ∈ l.session, s.nextPing ≤ l.now
  | .look => ∀ s ∈ l.session, s.nextLook ≤ l.now
  | .pass span => ∀ s ∈ l.session, l.now + span ≤ s.nextTimer.1
  | _ => True

theorem throughout_append {P : Line → Happening → Prop} :
    l.Throughout P (happenings ++ more) ↔ l.Throughout P happenings ∧ (l.run happenings).Throughout P more := by
  induction happenings generalizing l with
  | nil => exact iff_of_eq (true_and _).symm
  | cons x happenings ih =>
    rw [List.cons_append, Throughout, Throughout, ih, and_assoc]
    rfl

theorem run_append (l : Line) (happenings more : List Happening) :
    l.run (happenings ++ more) = (l.run happenings).run more :=
  List.foldl_append

/-- What every step of a kind keeps, a run of such steps keeps. -/
theorem Throughout.keeps {P : Line → Happening → Prop} {Q : Line → Prop} (h : l.Throughout P happenings)
    (hstep : ∀ l x, P l x → Q l → Q (l.step x)) (hl : Q l) : Q (l.run happenings) := by
  induction happenings generalizing l with
  | nil => exact hl
  | cons x happenings ih => exact ih h.2 (hstep l x h.1 hl)

/-! ### What a step does to a session -/

/-- What a session that goes on reacts to. -/
inductive Meets (l : Line) (s : Session) : Happening → Signal → Prop
  | message {m : SyncMessage} {hub : Hub} :
      l.hub.takeNext s.peer = some (m, hub) → Meets l s (.queue true) (.outgoing m)
  | frame {f : SocketFrame} : Meets l s (.frame f) (.incoming f)
  | ping : Meets l s .ping .pingDue
  | look : s.isIdle l.server l.now = false → Meets l s .look .quiet

/-- How a session goes on, and until when. -/
inductive GoesOn (l : Line) (s : Session) : Happening → Nat → Session → Prop
  | passes (span : Nat) : GoesOn l s (.pass span) (l.now + span) s
  /-- What happens does not reach it. -/
  | waits {x : Happening} : GoesOn l s x l.now s
  | reacts {x : Happening} {signal : Signal} :
      Meets l s x signal → GoesOn l s x l.now (s.react l.server l.now signal).2

theorem now_meet (l : Line) (signal : Signal) : (l.meet signal).now = l.now ∧ (l.meet signal).server = l.server := by
  cases hs : l.session with
  | none => rw [meet_of_none hs]; exact ⟨rfl, rfl⟩
  | some s => rw [meet_eq hs]; exact ⟨rfl, rfl⟩

theorem eq_of_mem_meet (hs : l.session = some s) (signal : Signal) {s' : Session}
    (hs' : s' ∈ (l.meet signal).session) :
    (s.react l.server l.now signal).1.stays = true ∧ s' = (s.react l.server l.now signal).2 := by
  rw [meet_eq hs] at hs'
  dsimp only at hs'
  split at hs'
  · next hstays => exact ⟨hstays, (Option.mem_some.1 hs').symm⟩
  · cases hs'

theorem session_step_of_none (hs : l.session = none) (x : Happening) : (l.step x).session = none := by
  cases x with
  | queue isTaken =>
    change (l.readQueue isTaken).session = none
    rw [readQueue, hs]
    exact hs
  | frame f =>
    change (l.hear f).session = none
    rw [hear, hs]
    exact hs
  | streamEnd | ping | look => exact (congrArg session (meet_of_none hs _)).trans hs
  | elsewhere e => exact hs
  | pass span => exact hs

/-- Only time that passes moves the clock, and nothing changes the settings. -/
theorem now_step (l : Line) (x : Happening) :
    (l.step x).server = l.server ∧ (l.step x).now = l.now + (match x with | .pass span => span | _ => 0) := by
  cases x with
  | queue isTaken =>
    change (l.readQueue isTaken).server = _ ∧ (l.readQueue isTaken).now = _
    unfold readQueue
    split
    · exact ⟨rfl, rfl⟩
    · next s hs =>
      split
      · next m hub ht =>
        cases isTaken with
        | true => exact (now_meet (l.take s.peer) (.outgoing m)).symm
        | false => exact (now_meet (l.take s.peer) (.refused m)).symm
      · split
        · exact (now_meet l .lost).symm
        · exact ⟨rfl, rfl⟩
  | frame f =>
    change (l.hear f).server = _ ∧ (l.hear f).now = _
    unfold hear
    split
    · exact ⟨rfl, rfl⟩
    · exact (now_meet (l.receive f) (.incoming f)).symm
  | streamEnd | ping | look => exact (now_meet l _).symm
  | elsewhere e => exact ⟨rfl, rfl⟩
  | pass span => exact ⟨rfl, rfl⟩

/-- A session after a step was there before it. -/
theorem goesOn_of_step {s' : Session} (hs' : s' ∈ (l.step x).session) :
    ∃ s ∈ l.session, l.GoesOn s x (l.step x).now s' := by
  cases hs : l.session with
  | none =>
    rw [session_step_of_none hs] at hs'
    cases hs'
  | some s =>
    refine ⟨s, rfl, ?_⟩
    have hnow := (now_step l x).2
    have hwaits (hs' : s' ∈ l.session) : l.GoesOn s x l.now s' := by
      obtain rfl : s = s' := Option.some.inj (hs.symm.trans hs')
      exact .waits
    cases x with
    | elsewhere e => exact hwaits hs'
    | queue isTaken =>
      rw [hnow]
      change s' ∈ (l.readQueue isTaken).session at hs'
      unfold readQueue at hs'
      rw [hs] at hs'
      dsimp only at hs'
      split at hs'
      · next m hub ht =>
        have htook : (l.take s.peer).session = some s := hs
        cases isTaken with
        | true =>
          obtain ⟨-, rfl⟩ := eq_of_mem_meet htook (.outgoing m) hs'
          exact .reacts (.message ht)
        | false =>
          obtain ⟨hstays, -⟩ := eq_of_mem_meet htook (.refused m) hs'
          cases hstays
      · split at hs'
        · obtain ⟨hstays, -⟩ := eq_of_mem_meet hs _ hs'
          cases hstays
        · exact hwaits hs'
    | frame f =>
      rw [hnow]
      change s' ∈ (l.hear f).session at hs'
      rw [hear_eq hs] at hs'
      obtain ⟨-, rfl⟩ := eq_of_mem_meet (l := l.receive f) hs (.incoming f) hs'
      exact .reacts .frame
    | streamEnd =>
      obtain ⟨hstays, -⟩ := eq_of_mem_meet hs _ hs'
      cases hstays
    | ping =>
      rw [hnow]
      obtain ⟨-, rfl⟩ := eq_of_mem_meet hs _ hs'
      exact .reacts .ping
    | look =>
      rw [hnow]
      obtain ⟨hstays, rfl⟩ := eq_of_mem_meet hs _ hs'
      refine .reacts (.look ?_)
      cases hidle : s.isIdle l.server l.now with
      | false => rfl
      | true =>
        have hends := (session_step hs .look).2 (.idle hidle)
        rw [step, session_meet hs, hstays] at hends
        cases hends
    | pass span =>
      obtain rfl : s = s' := Option.some.inj (hs.symm.trans hs')
      exact .passes span

/-! ### Sessions on time -/

/-- No timer of a session is overdue. -/
structure OnTime (now : Nat) (s : Session) : Prop where
  begun : s.waitingSince ≤ now
  ping : now ≤ s.nextPing
  look : now ≤ s.nextLook

theorem OnTime.react (h : OnTime l.now s) (signal : Signal) : OnTime l.now (s.react l.server l.now signal).2 := by
  refine ⟨(Session.waitingSince_react ..).le, ?_, ?_⟩
  · obtain hsame | hnext := Session.nextPing_react l.server l.now s signal
    · rw [hsame]
      exact h.ping
    · rw [hnext]
      exact Nat.le_add_right _ _
  · rw [Session.nextLook_react]
    exact Nat.le_add_right _ _

/-- Timely steps leave no timer overdue. -/
theorem onTime_step (hx : l.Timely x) (h : ∀ s ∈ l.session, OnTime l.now s) :
    ∀ s ∈ (l.step x).session, OnTime (l.step x).now s := by
  intro s' hs'
  obtain ⟨s, hs, hgoes⟩ := goesOn_of_step hs'
  generalize (l.step x).now = now at hgoes ⊢
  obtain span | - | - := hgoes
  · obtain ⟨hping, hlook⟩ := Session.le_nextTimer_iff.1 (hx s' hs)
    exact ⟨(h s' hs).begun.trans (Nat.le_add_right _ _), hping, hlook⟩
  · exact h s' hs
  · exact (h s hs).react _

/-! ### While the hub has nothing to say -/

/-- Nothing comes in from the client, and there is nothing in the queue when it is looked into. -/
def Still (l : Line) : Happening → Prop
  | .queue _ => ∀ s ∈ l.session, l.hub.takeNext s.peer = none
  | .frame _ => False
  | _ => True

/-- When a session is to be found idle, but not before a certain time. -/
def due (server : ServerSettings) (start : Nat) (s : Session) : Nat :=
  max start (s.lastActivity + server.idleTimeout)

/-- Once it is due, a session waits for one look, or for a ping and then for one look. -/
structure Looks (server : ServerSettings) (start now : Nat) (s : Session) : Prop extends OnTime now s where
  soon : s.waitingSince ≤ due server start s ∨
    s.waitingSince ≤ due server start s + quietSpan ∧ s.nextLook < s.nextPing

theorem looks_step {start : Nat} (hping : quietSpan < l.server.pingInterval) (htimely : l.Timely x) (hstill : l.Still x)
    (h : ∀ s ∈ l.session, Looks l.server start l.now s) :
    ∀ s ∈ (l.step x).session, Looks l.server start (l.step x).now s := by
  intro s' hs'
  have hon := onTime_step htimely (fun s hs => (h s hs).toOnTime) s' hs'
  obtain ⟨s, hs, hgoes⟩ := goesOn_of_step hs'
  refine ⟨hon, ?_⟩
  generalize (l.step x).now = now at hgoes
  obtain span | - | hmeets := hgoes
  · exact (h s' hs).soon
  · exact (h s' hs).soon
  · have hl := h s hs
    cases hmeets with
    | message htake =>
      rw [hstill s hs] at htake
      cases htake
    | frame => exact hstill.elim
    | ping =>
      have hdue : s.nextPing ≤ l.now := htimely s hs
      have hlook : l.now ≤ s.waitingSince + quietSpan := hl.look
      obtain hsoon | ⟨-, hfirst⟩ := hl.soon
      · refine .inr ⟨hlook.trans (Nat.add_le_add_right hsoon _), ?_⟩
        exact Nat.add_lt_add_left hping l.now
      · exact absurd (hl.look.trans_lt hfirst) hdue.not_gt
    | look hidle =>
      have hsame : (s.react l.server l.now .quiet).2.lastActivity = s.lastActivity :=
        Session.lastActivity_react _ _ _ _ nofun
      have hearly : l.now < s.lastActivity + l.server.idleTimeout := by
        rw [Session.isIdle, decide_eq_false_iff_not] at hidle
        omega
      rw [Session.waitingSince_react, due, hsame]
      exact .inl (hearly.le.trans (le_max_right _ _))

theorem looks_run {start : Nat} (hping : quietSpan < l.server.pingInterval) (htimely : l.Throughout Timely happenings)
    (hstill : l.Throughout Still happenings) (h : ∀ s ∈ l.session, Looks l.server start l.now s) :
    ∀ s ∈ (l.run happenings).session, Looks l.server start (l.run happenings).now s := by
  induction happenings generalizing l with
  | nil => exact h
  | cons x happenings ih =>
    have hone := looks_step hping htimely.1 hstill.1 h
    rw [← (now_step l x).1] at hping hone ⊢
    exact ih hping htimely.2 hstill.2 hone

theorem server_run (l : Line) (happenings : List Happening) : (l.run happenings).server = l.server := by
  induction happenings generalizing l with
  | nil => rfl
  | cons x happenings ih => exact (ih _).trans (now_step l x).1

theorem onTime_opening (e : Endpoint) (peer : Nat) (hub : Hub) :
    ∀ s ∈ (opening e peer hub).session, OnTime (opening e peer hub).now s := by
  rintro s ⟨⟩
  exact ⟨le_rfl, le_rfl, Nat.le_add_right _ _⟩

/-- If the client is silent and the hub has nothing for it, a session outlasts the time it is due by no more than two
looks. -/
theorem idle_session_ends (e : Endpoint) (peer : Nat) (hub : Hub) {first quiet : List Happening}
    (hv : e.application.config.server.validate = .ok ())
    (htimely : (opening e peer hub).Throughout Timely (first ++ quiet))
    (hstill : ((opening e peer hub).run first).Throughout Still quiet) :
    ∀ s ∈ ((opening e peer hub).run (first ++ quiet)).session, ((opening e peer hub).run (first ++ quiet)).now ≤
      due e.application.config.server ((opening e peer hub).run first).now s + 2 * quietSpan := by
  obtain ⟨hping, -⟩ := (ServerSettings.validate_ok_iff _).1 hv
  obtain ⟨hfirst, hquiet⟩ := throughout_append.1 htimely
  have hon := hfirst.keeps (fun _ _ hx h => onTime_step hx h) (onTime_opening e peer hub)
  have hserver : ((opening e peer hub).run first).server = e.application.config.server := server_run _ _
  have hshort : quietSpan < ((opening e peer hub).run first).server.pingInterval := by
    rw [hserver]
    exact lt_of_lt_of_le (by decide) hping
  have hlooks := looks_run hshort hquiet hstill fun s hs =>
    ⟨hon s hs, .inl ((hon s hs).begun.trans (le_max_left _ _))⟩
  intro s hs
  rw [run_append] at hs ⊢
  obtain ⟨hontime, hsoon⟩ := hlooks s hs
  rw [hserver] at hsoon
  have hlook := hontime.look
  rw [Session.nextLook] at hlook
  omega

/-! ### While the hub keeps talking -/

/-- A message that is in the queue goes out. -/
theorem readQueue_of_mail (hs : l.session = some s) {out : SyncMessage} {h : Hub}
    (ht : l.hub.takeNext s.peer = some (out, h)) :
    (l.step (.queue true)).session = some { s with waitingSince := l.now } ∧ (l.step (.queue true)).hub = h := by
  have htook : (l.take s.peer).session = some s := hs
  have hread : l.step (.queue true) = (l.take s.peer).meet (.outgoing out) := by
    change l.readQueue true = _
    rw [readQueue, hs]
    dsimp only
    rw [ht]
    rfl
  have hnext : (l.take s.peer).history = l.history.next (.read s.peer) := by simp [take, history]
  rw [hread]
  constructor
  · rw [meet_eq htook]
    rfl
  · rw [hub, history_meet htook, hnext, History.next, ht]
    rfl

/-- Another's message is handled and goes out, and then nothing happens for a while. -/
def news (id : Nat) (m : SyncMessage) (span : Nat) : List Happening :=
  [.elsewhere (.handle id m), .queue true, .pass span]

/-- The session pings if it has to, and another's message goes out; the next round is after a gap, or with the next
ping. -/
def round (id : Nat) (m : SyncMessage) (gap : Nat) (l : Line) : List Happening :=
  match l.session with
  | none => []
  | some s =>
    if s.nextPing ≤ l.now then .ping :: news id m (min gap l.server.pingInterval)
    else news id m (min gap (s.nextPing - l.now))

/-- So many rounds, one after the other. -/
def rounds (id : Nat) (m : SyncMessage) (gap : Nat) : Nat → Line → List Happening
  | 0, _ => []
  | n + 1, l => l.round id m gap ++ rounds id m gap n (l.run (l.round id m gap))

/-- After a message is handled for another, there is one for a peer, and then the hub is as before. -/
def Repeats (id : Nat) (m : SyncMessage) (peer : Nat) (h : Hub) : Prop :=
  ∃ out, (h.handle id m).takeNext peer = some (out, h)

/-- There is a session at a hub, and its client has been silent since a certain time. -/
structure Waits (h : Hub) (peer since : Nat) (l : Line) : Prop where
  hub : l.hub = h
  session : ∃ s ∈ l.session, s.peer = peer ∧ s.lastActivity = since

variable {id gap span since : Nat} {m : SyncMessage} {h : Hub}

theorem waits_news (hs : l.session = some s) (hrepeats : Repeats id m s.peer l.hub)
    (hping : l.now + span ≤ s.nextPing) (hlook : span ≤ quietSpan) :
    l.Throughout Timely (news id m span) ∧ (l.run (news id m span)).Waits l.hub s.peer s.lastActivity ∧
      (l.run (news id m span)).now = l.now + span := by
  obtain ⟨out, hout⟩ := hrepeats
  have hmail : (l.step (.elsewhere (.handle id m))).hub.takeNext s.peer = some (out, l.hub) := by
    have hasked : (l.step (.elsewhere (.handle id m))).history = l.history.next (.handle id m) := by
      simp [step, history]
    rw [Line.hub, hasked]
    exact hout
  obtain ⟨hsession, hhub⟩ := readQueue_of_mail (l := l.step (.elsewhere (.handle id m))) hs hmail
  have hnow : ((l.step (.elsewhere (.handle id m))).step (.queue true)).now = l.now := (now_step _ _).2
  refine ⟨⟨trivial, trivial, fun s' hs' => ?_, trivial⟩, ⟨hhub, _, hsession, rfl, rfl⟩, congrArg (· + _) hnow⟩
  obtain rfl := Option.some.inj (hsession.symm.trans hs')
  rw [hnow]
  exact Session.le_nextTimer_iff.2 ⟨hping, Nat.add_le_add_left hlook _⟩

/-- A round takes time, and leaves the session waiting. -/
theorem waits_round (hw : l.Waits h peer since) (hrepeats : Repeats id m peer h)
    (hinterval : 0 < l.server.pingInterval) (hpos : 0 < gap) (hgap : gap < quietSpan) :
    l.Throughout Timely (l.round id m gap) ∧ (l.run (l.round id m gap)).Waits h peer since ∧
      l.now < (l.run (l.round id m gap)).now := by
  obtain ⟨rfl, s, hs, rfl, rfl⟩ := hw
  rw [Option.mem_def] at hs
  unfold round
  rw [hs]
  dsimp only
  split
  · next hdue =>
    have hsession : (l.step .ping).session =
        some { s with waitingSince := l.now, nextPing := l.now + l.server.pingInterval } := by
      rw [step, meet_eq hs]
      rfl
    have hhub : (l.step .ping).hub = l.hub := by
      rw [step, hub, history_meet hs]
      rfl
    have hnow : (l.step .ping).now = l.now := (now_step l .ping).2
    have hlong : (l.step .ping).now + min gap l.server.pingInterval ≤ l.now + l.server.pingInterval := by
      rw [hnow]
      omega
    rw [← hhub] at hrepeats
    obtain ⟨htimely, hwaits, htime⟩ := waits_news hsession hrepeats hlong (by omega)
    rw [hhub] at hwaits
    rw [hnow] at htime
    refine ⟨⟨fun s' hs' => ?_, htimely⟩, hwaits, ?_⟩
    · obtain rfl := Option.some.inj (hs.symm.trans hs')
      exact hdue
    · refine lt_of_lt_of_eq ?_ htime.symm
      omega
  · next hearly =>
    have hlong : l.now + min gap (s.nextPing - l.now) ≤ s.nextPing := by omega
    obtain ⟨htimely, hwaits, htime⟩ := waits_news hs hrepeats hlong (by omega)
    refine ⟨htimely, hwaits, ?_⟩
    rw [htime]
    omega

/-- As long as messages for another go out before the next look, the session of a silent client goes on, whatever the
time. -/
theorem busy_session_stays (hw : l.Waits h peer since) (hrepeats : Repeats id m peer h)
    (hinterval : 0 < l.server.pingInterval) (hpos : 0 < gap) (hgap : gap < quietSpan) (n : Nat) :
    l.Throughout Timely (rounds id m gap n l) ∧ (l.run (rounds id m gap n l)).Waits h peer since ∧
      l.now + n ≤ (l.run (rounds id m gap n l)).now := by
  induction n generalizing l with
  | zero => exact ⟨trivial, hw, le_rfl⟩
  | succ n ih =>
    obtain ⟨htimely, hwaits, htime⟩ := waits_round hw hrepeats hinterval hpos hgap
    rw [← server_run l (l.round id m gap)] at hinterval
    obtain ⟨hrest, hend, hlong⟩ := ih hwaits hinterval
    rw [rounds, run_append, throughout_append]
    exact ⟨⟨htimely, hrest⟩, hend, by omega⟩

/-- Only the clock, the other and the session itself have a part in a round. -/
theorem mem_rounds {n : Nat} (hx : x ∈ rounds id m gap n l) :
    x = .ping ∨ x = .elsewhere (.handle id m) ∨ x = .queue true ∨ ∃ span, x = .pass span := by
  induction n generalizing l with
  | zero => cases hx
  | succ n ih =>
    obtain hround | hrest := List.mem_append.1 hx
    · have hnews {span : Nat} (hx : x ∈ news id m span) :
          x = .elsewhere (.handle id m) ∨ x = .queue true ∨ ∃ span, x = .pass span := by
        simp only [news, List.mem_cons, List.not_mem_nil, or_false] at hx
        exact hx.imp_right (Or.imp_right fun h => ⟨span, h⟩)
      unfold round at hround
      split at hround
      · cases hround
      · split at hround
        · obtain hping | hmem := List.mem_cons.1 hround
          · exact .inl hping
          · exact .inr (hnews hmem)
        · exact .inr (hnews hround)
    · exact ih hrest

end Line

namespace Endpoint

/-- Bob has a document open, and the settings are others. -/
def occupiedUnder (server : ServerSettings) : Endpoint :=
  { occupied with application := { guestList with config := { guestList.config with server } } }

/-- Bob tells where he is. -/
def bobsPresence : SyncMessage :=
  .awareness "d" "bob" (some (.bool true))

/-- Bob and Ada have the document open, and Bob is present. -/
def sharedHub : Hub :=
  { policy := guestList.policy
    rooms := [("d", { members := [1, 2] })]
    peers := [{ id := 1, doc := "d", client := "bob" }, { id := 2, doc := "d", client := "ada" }]
    mailboxes := [{ owner := 1 }, { owner := 2 }]
    awareness := ⟨[("d", [("bob", .bool true)])]⟩
    nextPeer := 3 }

/-- Ada hears of Bob. -/
def greeting : List Happening :=
  [.elsewhere (.handle 1 bobsPresence), .queue true]

/-- While Bob keeps telling where he is, Ada's session goes on, though she has been silent for as long as one likes. -/
theorem idleness_unnoticed (server : ServerSettings) (hping : 0 < server.pingInterval) (time : Nat) :
    ∃ hub, (occupiedUnder server).open? { doc := "d", ticket := "t" } =
        ({ session := some (.start 2 0) }, { occupiedUnder server with hub }) ∧
      ∃ happenings, (Line.opening (occupiedUnder server) 2 hub).Throughout Line.Timely happenings ∧
        Line.Undisturbed 2 happenings ∧ (∀ f, .frame f ∉ happenings) ∧
        time ≤ ((Line.opening (occupiedUnder server) 2 hub).run happenings).now ∧
        ∃ s ∈ ((Line.opening (occupiedUnder server) 2 hub).run happenings).session, s.lastActivity = 0 := by
  refine ⟨_, rfl, ?_⟩
  generalize hl : Line.opening (occupiedUnder server) 2 _ = l
  have hw : (l.run greeting).Waits sharedHub 2 0 := by
    subst hl
    exact ⟨rfl, _, rfl, rfl, rfl⟩
  have hrepeats : Line.Repeats 1 bobsPresence 2 sharedHub := ⟨_, rfl⟩
  have hinterval : 0 < (l.run greeting).server.pingInterval := by
    subst hl
    exact hping
  obtain ⟨htimely, ⟨-, s, hs, -, hsince⟩, htime⟩ :=
    Line.busy_session_stays hw hrepeats hinterval (show 0 < 150 by decide) (by decide) time
  have hpart {x : Happening} (hx : x ∈ greeting ++ Line.rounds 1 bobsPresence 150 time (l.run greeting)) :
      x = .ping ∨ x = .elsewhere (.handle 1 bobsPresence) ∨ x = .queue true ∨ ∃ span, x = .pass span := by
    obtain hfirst | hrest := List.mem_append.1 hx
    · obtain rfl | hqueue := List.mem_cons.1 hfirst
      · exact .inr (.inl rfl)
      · exact .inr (.inr (.inl (List.mem_singleton.1 hqueue)))
    · exact Line.mem_rounds hrest
  refine ⟨greeting ++ Line.rounds 1 bobsPresence 150 time (l.run greeting), ?_, ?_, ?_, ?_, s, ?_, hsince⟩
  · exact Line.throughout_append.2 ⟨⟨trivial, trivial, trivial⟩, htimely⟩
  · intro e he
    obtain h | h | h | ⟨span, h⟩ := hpart he <;> cases h
    simp [Event.IsOwn]
  · intro f hf
    obtain h | h | h | ⟨span, h⟩ := hpart hf <;> cases h
  · rw [Line.run_append]
    exact (Nat.le_add_left _ _).trans htime
  · rw [Line.run_append]
    exact hs

end Endpoint

end SecureLayout.Relay
