import SecureLayout.Proofs.Sandbox.Runs
import SecureLayout.Sandbox.Recording

/-!
What a manager posts to a frame that never refuses a text, whatever it is asked and told meanwhile. Main
statement: nothing is posted before the guest is ready, every call is posted or still waits, in the order
of the calls and once, and the phases and the error shown are those that the guest's messages account for.
-/

namespace SecureLayout.Sandbox

open Json (Value)
open Wire (FrameMessage)

/-- Steps of a frame's life. -/
inductive Phase.Move : Phase → Phase → Prop
  | stay (p : Phase) : Move p p
  | start : Move .waiting .ready
  | giveUp : Move .waiting .destroyed
  | finish : Move .ready .destroyed

theorem Phase.Move.of_cases {p q : Phase} (h : q = p ∨ p = .waiting ∧ q = .ready) : Phase.Move p q := by
  rcases h with rfl | ⟨rfl, rfl⟩
  · exact .stay _
  · exact .start

variable {φ : Type} [IsolatedFrame φ]

/-- Whatever was posted before, the frame takes the next text. -/
def NeverRefuses (f : φ) : Prop :=
  ∀ (raws : List String) (raw : String),
    (IsolatedFrame.post raw (raws.foldl (fun f raw => (IsolatedFrame.post raw f).2) f)).1 = .ok ()

theorem NeverRefuses.post {f : φ} (h : NeverRefuses f) (raw : String) :
    NeverRefuses (IsolatedFrame.post raw f).2 :=
  fun raws => h (raw :: raws)

/-- A frame that takes a text logs it. -/
theorem NeverRefuses.log_post {f : Logged φ} (h : NeverRefuses f.frame) (raw : String) :
    (IsolatedFrame.post raw f).2.log = f.log ++ [raw] ∧ NeverRefuses (IsolatedFrame.post raw f).2.frame := by
  rw [Logged.frame_post]
  exact ⟨Logged.log_post (h [] raw), h.post raw⟩

/-- Messages that tell whether the guest is in order. -/
def isReport : FrameMessage → Bool
  | .rendered | .error _ => true
  | _ => false

/-- The error that was reported last, if nothing was painted since. -/
def lastFailure (told : List FrameMessage) : Option Failure :=
  match (told.filter isReport).getLast? with
  | some (.error text) => some (.transport text)
  | _ => none

theorem lastFailure_concat (told : List FrameMessage) (x : FrameMessage) :
    lastFailure (told ++ [x]) =
      match x with
      | .rendered => none
      | .error text => some (.transport text)
      | _ => lastFailure told := by
  unfold lastFailure
  rw [List.filter_append]
  cases x <;> simp [isReport]

theorem isSome_lastFailure (told : List FrameMessage) :
    (lastFailure told).isSome ↔ ∃ text, (told.filter isReport).getLast? = some (.error text) := by
  unfold lastFailure
  split
  · next text h => simp [h]
  · next h =>
    constructor
    · intro hn
      cases hn
    · rintro ⟨text, he⟩
      exact absurd he (h text)

namespace Manager

/-- What was posted and what waits, after calls were made and messages were heard. -/
structure Transport (asked told : List FrameMessage) (n : Manager (Logged φ)) : Prop where
  takes : n.phase ≠ .destroyed → NeverRefuses n.frame.frame
  waiting : n.phase = .waiting → .ready ∉ told ∧ n.frame.log = [] ∧ n.queue = asked
  ready : n.phase = .ready → .ready ∈ told ∧ n.frame.log = asked.map FrameMessage.encode ∧ n.queue = []
  destroyed : n.phase = .destroyed → (.ready ∉ told → n.frame.log = []) ∧ n.queue = []
  reported : n.lastError = lastFailure told

variable {n : Manager (Logged φ)} {asked told : List FrameMessage}

theorem Transport.of_waiting (hp : n.phase = .waiting) (hf : NeverRefuses n.frame.frame)
    (hready : .ready ∉ told) (hlog : n.frame.log = []) (hqueue : n.queue = asked)
    (hl : n.lastError = lastFailure told) : Transport asked told n := by
  refine ⟨fun _ => hf, fun _ => ⟨hready, hlog, hqueue⟩, fun h => ?_, fun h => ?_, hl⟩ <;>
    cases hp.symm.trans h

theorem Transport.of_ready (hp : n.phase = .ready) (hf : NeverRefuses n.frame.frame)
    (hready : .ready ∈ told) (hlog : n.frame.log = asked.map FrameMessage.encode) (hqueue : n.queue = [])
    (hl : n.lastError = lastFailure told) : Transport asked told n := by
  refine ⟨fun _ => hf, fun h => ?_, fun _ => ⟨hready, hlog, hqueue⟩, fun h => ?_, hl⟩ <;>
    cases hp.symm.trans h

theorem Transport.of_destroyed (hp : n.phase = .destroyed) (hlog : .ready ∉ told → n.frame.log = [])
    (hqueue : n.queue = []) (hl : n.lastError = lastFailure told) : Transport asked told n := by
  refine ⟨fun h => absurd hp h, fun h => ?_, fun h => ?_, fun _ => ⟨hlog, hqueue⟩, hl⟩ <;>
    cases hp.symm.trans h

theorem phase_send (m : Manager φ) (x : FrameMessage) : (m.send x).2.phase = m.phase := by
  unfold send
  cases h : m.phase <;> simp only [post, h]

theorem Transport.send (t : Transport asked told n) (x : FrameMessage) :
    Transport (asked ++ [x]) told (n.send x).2 := by
  have hphase := phase_send n x
  cases hp : n.phase with
  | destroyed =>
    have hsame : (n.send x).2 = n := by simp only [Manager.send, hp]
    rw [hsame]
    exact .of_destroyed hp (t.destroyed hp).1 (t.destroyed hp).2 t.reported
  | waiting =>
    obtain ⟨hready, hlog, hqueue⟩ := t.waiting hp
    have htakes : NeverRefuses n.frame.frame := t.takes (by simp [hp])
    rw [send_waiting n x hp]
    exact .of_waiting hp htakes hready hlog (congrArg (· ++ [x]) hqueue) t.reported
  | ready =>
    obtain ⟨hready, hlog, hqueue⟩ := t.ready hp
    have hposted : (n.send x).2 = (n.post x).2 := by simp only [Manager.send, hp]
    have htakes : NeverRefuses n.frame.frame := t.takes (by simp [hp])
    obtain ⟨hlog', htakes'⟩ := htakes.log_post x.encode
    rw [hposted] at hphase ⊢
    refine .of_ready (hphase.trans hp) htakes' hready ?_ hqueue t.reported
    rw [List.map_append, ← hlog]
    exact hlog'

/-- What waited is posted in order. -/
theorem log_flush (h : NeverRefuses n.frame.frame) :
    n.flush.frame.log = n.frame.log ++ n.queue.map FrameMessage.encode ∧ NeverRefuses n.flush.frame.frame := by
  have hfold : ∀ (xs : List FrameMessage) (n : Manager (Logged φ)), NeverRefuses n.frame.frame →
      (xs.foldl (fun m x => (m.post x).2) n).frame.log = n.frame.log ++ xs.map FrameMessage.encode ∧
        NeverRefuses (xs.foldl (fun m x => (m.post x).2) n).frame.frame := by
    intro xs
    induction xs with
    | nil => exact fun n h => ⟨(List.append_nil _).symm, h⟩
    | cons x xs ih =>
      intro n h
      obtain ⟨hlog, htakes⟩ := h.log_post x.encode
      obtain ⟨hlog', htakes'⟩ := ih (n.post x).2 htakes
      refine ⟨hlog'.trans ?_, htakes'⟩
      change (IsolatedFrame.post x.encode n.frame).2.log ++ _ = _
      rw [hlog, List.append_assoc]
      rfl
  exact hfold n.queue n h

theorem lastError_flush (m : Manager φ) : m.flush.lastError = m.lastError := by
  have hfold : ∀ (xs : List FrameMessage) (m : Manager φ),
      (xs.foldl (fun m x => (m.post x).2) m).lastError = m.lastError := by
    intro xs
    induction xs with
    | nil => exact fun _ => rfl
    | cons x xs ih => exact fun m => ih _
  exact hfold m.queue m

/-- A message that neither starts the guest nor reports on it changes nothing. -/
theorem Transport.told_other (t : Transport asked told n) {x : FrameMessage} (hx : x ≠ .ready)
    {lastError : Option Failure} (hl : lastError = lastFailure (told ++ [x])) :
    Transport asked (told ++ [x]) { n with lastError } where
  takes := t.takes
  waiting h := by
    obtain ⟨hready, hrest⟩ := t.waiting h
    refine ⟨?_, hrest⟩
    simp [hready, hx.symm]
  ready h := (t.ready h).imp_left (List.mem_append_left _)
  destroyed h := (t.destroyed h).imp_left fun hlog hready => hlog fun hm => hready (List.mem_append_left _ hm)
  reported := hl

theorem Transport.receive (t : Transport asked told n) (hp : n.phase ≠ .destroyed) (x : FrameMessage) :
    Transport asked (told ++ [x]) (n.receive x).2 := by
  have hlast := lastFailure_concat told x
  cases x with
  | ready =>
    have hmem : FrameMessage.ready ∈ told ++ [.ready] := List.mem_append_right _ (List.mem_singleton_self _)
    by_cases hw : n.phase = .waiting
    · obtain ⟨-, hlog, hqueue⟩ := t.waiting hw
      have hflush : (n.receive .ready).2 = { n with phase := .ready }.flush := by
        simp only [Manager.receive, hw, if_true]
      have hphase : ({ n with phase := .ready } : Manager (Logged φ)).flush.phase = .ready := phase_flush _
      obtain ⟨hlog', htakes⟩ := log_flush (n := { n with phase := .ready }) (t.takes hp)
      rw [hflush]
      refine .of_ready hphase htakes hmem ?_ rfl ((lastError_flush _).trans (t.reported.trans hlast.symm))
      rw [hlog']
      change n.frame.log ++ n.queue.map _ = _
      rw [hlog, hqueue]
      rfl
    · have hsame : (n.receive .ready).2 = n := by simp only [Manager.receive, hw, if_false]
      rw [hsame]
      exact ⟨t.takes, fun h => absurd h hw, fun h => ⟨hmem, (t.ready h).2⟩, fun h => absurd h hp,
        t.reported.trans hlast.symm⟩
  | rendered => exact t.told_other (x := .rendered) nofun hlast.symm
  | error text => exact t.told_other (x := .error text) nofun hlast.symm
  | render html context => exact t.told_other (x := .render html context) nofun (t.reported.trans hlast.symm)
  | updateContext path value =>
    exact t.told_other (x := .updateContext path value) nofun (t.reported.trans hlast.symm)
  | outputChange field value =>
    exact t.told_other (x := .outputChange field value) nofun (t.reported.trans hlast.symm)

theorem Transport.handleEvent (t : Transport asked told n) (e : MessageEvent) :
    Transport asked (told ++ n.hears e) (n.handleEvent e).2 := by
  rcases handleEvent_cases n e with ⟨hn, he⟩ | ⟨x, hn, hp, he⟩
  · rw [hn, he, List.append_nil]
    exact t
  · rw [hn, he]
    exact t.receive hp x

theorem Transport.handleAll (t : Transport asked told n) (es : List MessageEvent) :
    Transport asked (told ++ n.hearsAll es) (n.handleAll es) := by
  induction es generalizing n told with
  | nil =>
    rw [hearsAll, List.append_nil]
    exact t
  | cons e es ih =>
    rw [hearsAll, ← List.append_assoc]
    exact ih (t.handleEvent e)

/-- A frame is taken out as it is, and what waited for it is given up. -/
theorem destroy_eq (n : Manager (Logged φ)) :
    n.destroy.frame.log = n.frame.log ∧ n.destroy.lastError = n.lastError ∧
      (n.phase ≠ .destroyed → n.destroy.queue = []) := by
  unfold Manager.destroy
  split
  · next h => exact ⟨rfl, rfl, fun hp => absurd h hp⟩
  · exact ⟨rfl, rfl, fun _ => rfl⟩

theorem Transport.destroy (t : Transport asked told n) : Transport asked told n.destroy := by
  obtain ⟨hlog, hlast, hqueue⟩ := destroy_eq n
  cases hp : n.phase with
  | destroyed =>
    rw [destroy_of_destroyed n hp]
    exact t
  | waiting =>
    refine .of_destroyed (phase_destroy n) (fun _ => ?_) (hqueue ?_) (hlast.trans t.reported)
    · exact hlog.trans (t.waiting hp).2.1
    · simp [hp]
  | ready =>
    refine .of_destroyed (phase_destroy n) (fun h => ?_) (hqueue ?_) (hlast.trans t.reported)
    · exact absurd (t.ready hp).1 h
    · simp [hp]

theorem Transport.act (t : Transport asked told n) (i : Input) :
    Transport (asked ++ i.call?.toList) (told ++ n.heardBy i) (n.act i) := by
  cases i with
  | render html context => simpa [Input.call?, heardBy, Manager.act, render] using t.send (.render html context)
  | updateContext path value =>
    simpa [Input.call?, heardBy, Manager.act, updateContext] using t.send (.updateContext path value)
  | event e => simpa [Input.call?, heardBy, Manager.act] using t.handleEvent e
  | arrive e =>
    have hsame : Transport asked told (n.act (.arrive e)) :=
      ⟨t.takes, t.waiting, t.ready, t.destroyed, t.reported⟩
    simpa [Input.call?, heardBy] using hsame
  | pump =>
    have htaken : Transport asked told n.takeEvents.2 := ⟨t.takes, t.waiting, t.ready, t.destroyed, t.reported⟩
    have hpump : n.act .pump = n.takeEvents.2.handleAll n.takeEvents.1 := pump_eq n
    rw [hpump]
    simpa [Input.call?, heardBy] using htaken.handleAll n.takeEvents.1
  | destroy => simpa [Input.call?, heardBy, Manager.act] using t.destroy

theorem Transport.run (t : Transport [] [] n) (inputs : List Input) :
    Transport (calls inputs) (n.heard inputs) (n.run inputs) := by
  induction inputs using List.reverseRecOn with
  | nil => exact t
  | append_singleton inputs i ih =>
    rw [calls_concat, heard_concat, run_concat]
    exact ih.act i

theorem Transport.log_eq_nil (t : Transport asked told n) (h : .ready ∉ told) : n.frame.log = [] := by
  cases hp : n.phase with
  | waiting => exact (t.waiting hp).2.1
  | ready => exact absurd (t.ready hp).1 h
  | destroyed => exact (t.destroyed hp).1 h

theorem Transport.log_append_queue (t : Transport asked told n) (h : n.phase ≠ .destroyed) :
    n.frame.log ++ n.queue.map FrameMessage.encode = asked.map FrameMessage.encode := by
  cases hp : n.phase with
  | waiting =>
    obtain ⟨-, hlog, hqueue⟩ := t.waiting hp
    rw [hlog, hqueue, List.nil_append]
  | ready =>
    obtain ⟨-, hlog, hqueue⟩ := t.ready hp
    rw [hlog, hqueue, List.map_nil, List.append_nil]
  | destroyed => exact absurd hp h

theorem Transport.queue_eq_nil (t : Transport asked told n) (h : .ready ∈ told) : n.queue = [] := by
  cases hp : n.phase with
  | waiting => exact absurd h (t.waiting hp).1
  | ready => exact (t.ready hp).2.2
  | destroyed => exact (t.destroyed hp).2

/-! ### Phases -/

variable {m : Manager φ}

/-- What is handled starts the guest, or the phase stays. -/
theorem phase_handleEvent_cases (m : Manager φ) (e : MessageEvent) :
    (m.handleEvent e).2.phase = m.phase ∨ m.phase = .waiting ∧ (m.handleEvent e).2.phase = .ready := by
  rcases handleEvent_cases m e with ⟨-, he⟩ | ⟨x, -, -, he⟩
  · rw [he]
    exact .inl rfl
  · rw [he]
    cases x with
    | ready =>
      unfold receive
      dsimp only
      split
      · next hw => exact .inr ⟨hw, phase_flush _⟩
      · exact .inl rfl
    | _ => exact .inl rfl

theorem phase_handleAll_cases (m : Manager φ) (es : List MessageEvent) :
    (m.handleAll es).phase = m.phase ∨ m.phase = .waiting ∧ (m.handleAll es).phase = .ready := by
  induction es generalizing m with
  | nil => exact .inl rfl
  | cons e es ih =>
    have hrest := ih (m.handleEvent e).2
    rcases phase_handleEvent_cases m e with he | ⟨hw, he⟩
    · rw [he] at hrest
      exact hrest
    · rw [he] at hrest
      rcases hrest with hrest | ⟨hno, -⟩
      · exact .inr ⟨hw, hrest⟩
      · cases hno

theorem move_act (m : Manager φ) (i : Input) : Phase.Move m.phase (m.act i).phase := by
  cases i with
  | render html context => exact .of_cases (.inl (phase_send m _))
  | updateContext path value => exact .of_cases (.inl (phase_send m _))
  | event e => exact .of_cases (phase_handleEvent_cases m e)
  | arrive e => exact .stay _
  | pump =>
    rw [act, pump_eq]
    exact .of_cases (phase_handleAll_cases m.takeEvents.2 _)
  | destroy =>
    rw [act, phase_destroy]
    cases m.phase with
    | waiting => exact .giveUp
    | ready => exact .finish
    | destroyed => exact .stay _

/-- Only teardown ends a frame's life, and for good. -/
theorem phase_act_eq_destroyed_iff (m : Manager φ) (i : Input) :
    (m.act i).phase = .destroyed ↔ m.phase = .destroyed ∨ i = .destroy := by
  have hcases : ∀ {q : Phase}, q = m.phase ∨ m.phase = .waiting ∧ q = .ready →
      (q = .destroyed ↔ m.phase = .destroyed) := by
    rintro q (rfl | ⟨hw, rfl⟩)
    · exact Iff.rfl
    · rw [hw]
      exact ⟨nofun, nofun⟩
  have hstays : ∀ {i : Input}, (m.act i).phase = m.phase ∨ m.phase = .waiting ∧ (m.act i).phase = .ready →
      i ≠ .destroy → ((m.act i).phase = .destroyed ↔ m.phase = .destroyed ∨ i = .destroy) := by
    intro i h hi
    rw [hcases h, or_iff_left hi]
  cases i with
  | render html context => exact hstays (.inl (phase_send m _)) nofun
  | updateContext path value => exact hstays (.inl (phase_send m _)) nofun
  | event e => exact hstays (phase_handleEvent_cases m e) nofun
  | arrive e => exact hstays (.inl rfl) nofun
  | pump =>
    refine hstays ?_ nofun
    rw [act, pump_eq]
    exact phase_handleAll_cases m.takeEvents.2 _
  | destroy => exact ⟨fun _ => .inr rfl, fun _ => phase_destroy m⟩

theorem phase_run_eq_destroyed_iff (hm : m.phase ≠ .destroyed) (inputs : List Input) :
    (m.run inputs).phase = .destroyed ↔ .destroy ∈ inputs := by
  induction inputs using List.reverseRecOn with
  | nil => exact ⟨fun h => absurd h hm, fun h => absurd h List.not_mem_nil⟩
  | append_singleton inputs i ih =>
    rw [run_concat, phase_act_eq_destroyed_iff, ih]
    simp [eq_comm]

/-! ### Mounted frames -/

theorem mount_eq_ok {host : HostWindow} {frame : φ} (h : mount host frame = .ok m) :
    m.phase = .waiting ∧ m.queue = [] ∧ m.lastError = none := by
  unfold mount at h
  split at h
  · cases h
  · split at h
    · cases h
    · dsimp only at h
      split at h
      · cases h
        exact ⟨rfl, rfl, rfl⟩
      · cases h

theorem Transport.start (hp : m.phase = .waiting) (hq : m.queue = []) (hl : m.lastError = none)
    (hf : NeverRefuses m.frame) : Transport [] [] m.logged :=
  .of_waiting hp hf List.not_mem_nil rfl hq hl

/-- Once the guest was heard to be ready nothing but calls is posted. -/
theorem log_act (hp : n.phase ≠ .waiting) {i : Input} (hi : i.call? = none) :
    (n.act i).frame.log = n.frame.log := by
  have hevent : ∀ (n : Manager (Logged φ)) (e : MessageEvent), n.phase ≠ .waiting →
      (n.handleEvent e).2.frame = n.frame := by
    intro n e hp
    rcases handleEvent_cases n e with ⟨-, he⟩ | ⟨x, -, -, he⟩
    · rw [he]
    · rw [he]
      cases x with
      | ready => simp only [receive, hp, if_false]
      | _ => rfl
  have hall : ∀ (es : List MessageEvent) (n : Manager (Logged φ)), n.phase ≠ .waiting →
      (n.handleAll es).frame = n.frame := by
    intro es
    induction es with
    | nil => exact fun n _ => rfl
    | cons e es ih =>
      intro n hp
      refine (ih (n.handleEvent e).2 ?_).trans (hevent n e hp)
      rcases phase_handleEvent_cases n e with he | ⟨hw, -⟩
      · rwa [he]
      · exact absurd hw hp
  cases i with
  | render html context => cases hi
  | updateContext path value => cases hi
  | event e => exact congrArg Logged.log (hevent n e hp)
  | arrive e => rfl
  | pump =>
    rw [act, pump_eq]
    exact congrArg Logged.log (hall n.takeEvents.1 n.takeEvents.2 hp)
  | destroy => exact (destroy_eq n).1

omit [IsolatedFrame φ] in
theorem state_eq_errored_iff (m : Manager φ) :
    m.state = .errored ↔ m.phase = .ready ∧ m.lastError.isSome := by
  unfold state
  cases m.phase with
  | ready => cases m.lastError <;> simp
  | _ => simp

/-- Whatever happens to a mounted frame that never refuses a text: nothing is posted to it before its
window said that it is ready; until it is destroyed, what was posted and what waits are all calls in their
order, each once; once it was ready nothing waits, and nothing but calls makes anything be posted; it goes
from waiting to ready and from either to destroyed, by teardown alone; and an error shows just while it is
ready and reported an error last. -/
theorem run_posts_calls_in_order {host : HostWindow} {frame : φ} (hm : mount host frame = .ok m)
    (hf : NeverRefuses m.frame) (inputs : List Input) :
    (.ready ∉ m.heard inputs → m.posted inputs = []) ∧
    ((m.run inputs).phase ≠ .destroyed →
      m.posted inputs ++ (m.run inputs).queue.map FrameMessage.encode =
        (calls inputs).map FrameMessage.encode) ∧
    ((m.run inputs).phase = .destroyed ↔ .destroy ∈ inputs) ∧
    (.ready ∈ m.heard inputs → (m.run inputs).queue = [] ∧
      ∀ i : Input, i.call? = none → m.posted (inputs ++ [i]) = m.posted inputs) ∧
    (∀ i, Phase.Move (m.run inputs).phase (m.run (inputs ++ [i])).phase) ∧
    ((m.run inputs).state = .errored ↔ (m.run inputs).phase = .ready ∧
      ∃ text, ((m.heard inputs).filter isReport).getLast? = some (.error text)) := by
  obtain ⟨hp, hq, hl⟩ := mount_eq_ok hm
  have t := (Transport.start hp hq hl hf).run inputs
  obtain ⟨herase, hheard⟩ := erase_run m inputs
  rw [hheard] at t
  refine ⟨t.log_eq_nil, fun hlive => ?_, phase_run_eq_destroyed_iff (by rw [hp]; nofun) inputs,
    fun hready => ⟨?_, fun i hi => ?_⟩, fun i => ?_, ?_⟩
  · rw [← herase] at hlive ⊢
    exact t.log_append_queue hlive
  · rw [← herase]
    exact t.queue_eq_nil hready
  · rw [posted, run_concat]
    exact log_act (fun hw => (t.waiting hw).1 hready) hi
  · rw [run_concat]
    exact move_act _ i
  · have hlast : (m.run inputs).lastError = lastFailure (m.heard inputs) := herase ▸ t.reported
    rw [state_eq_errored_iff, hlast, isSome_lastFailure]

theorem neverRefuses_recording {f : RecordingFrame} (h : f.refusesPosts = false) : NeverRefuses f := by
  intro raws
  induction raws generalizing f with
  | nil => exact fun raw => by simp [IsolatedFrame.post, h]
  | cons raw raws ih => exact ih (by simp [IsolatedFrame.post, h])

/-- A frame is mounted, and is ready after it was asked to paint. -/
def mountedRecording : Manager RecordingFrame where
  host := (HostWindow.addListener {}).2
  frame := { window := ⟨1⟩, attributes := "allow-scripts", isAttached := true }
  listener := 0

def earlyRender : List Input :=
  [.render "<p>" .null, .event ⟨⟨2⟩, FrameMessage.ready.encode⟩, .event ⟨⟨1⟩, FrameMessage.ready.encode⟩,
    .updateContext "a" .null]

theorem run_posts_calls_in_order_early :
    mount {} ({ window := ⟨1⟩, attributes := "allow-scripts" } : RecordingFrame) = .ok mountedRecording ∧
      NeverRefuses mountedRecording.frame ∧
      mountedRecording.posted earlyRender ++
          (mountedRecording.run earlyRender).queue.map FrameMessage.encode =
        [(FrameMessage.render "<p>" .null).encode, (FrameMessage.updateContext "a" .null).encode] := by
  have hm : mount {} ({ window := ⟨1⟩, attributes := "allow-scripts" } : RecordingFrame) =
      .ok mountedRecording := by rfl
  have hf : NeverRefuses mountedRecording.frame := neverRefuses_recording rfl
  obtain ⟨-, horder, hdestroyed, -⟩ := run_posts_calls_in_order hm hf earlyRender
  exact ⟨hm, hf, (horder fun h => absurd (hdestroyed.1 h) (by simp [earlyRender])).trans rfl⟩

end Manager

end SecureLayout.Sandbox
