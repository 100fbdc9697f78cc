import Mathlib.Data.List.Induction
import SecureLayout.Sandbox.Manager

/-!
Runs of a manager: calls, events and teardown in any order, what the managed window said meanwhile and what
its frame took. Main statement: a log that is kept of what a frame takes has no part in the run.
-/

namespace SecureLayout.Sandbox

open Json (Value)
open Wire (FrameMessage)

/-- A frame and the texts that it took so far. -/
structure Logged (φ : Type) where
  frame : φ
  log : List String := []

variable {φ : Type} [IsolatedFrame φ]

instance : IsolatedFrame (Logged φ) where
  window f := IsolatedFrame.window f.frame
  attributes f := IsolatedFrame.attributes f.frame
  attach host f :=
    let (r, frame) := IsolatedFrame.attach host f.frame
    (r, { f with frame })
  post raw f :=
    match IsolatedFrame.post raw f.frame with
    | (.ok (), frame) => (.ok (), { frame, log := f.log ++ [raw] })
    | (.error e, frame) => (.error e, { f with frame })
  remove f := { f with frame := IsolatedFrame.remove f.frame }
  isAttached f := IsolatedFrame.isAttached f.frame

theorem Logged.frame_post (raw : String) (f : Logged φ) :
    (IsolatedFrame.post raw f).2.frame = (IsolatedFrame.post raw f.frame).2 := by
  rcases h : IsolatedFrame.post raw f.frame with ⟨_ | _, frame⟩ <;> simp only [IsolatedFrame.post, h]

/-- A text that the frame takes is logged. -/
theorem Logged.log_post {raw : String} {f : Logged φ} (hok : (IsolatedFrame.post raw f.frame).1 = .ok ()) :
    (IsolatedFrame.post raw f).2.log = f.log ++ [raw] := by
  rcases h : IsolatedFrame.post raw f.frame with ⟨_ | _, frame⟩
  · rw [h] at hok
    cases hok
  · simp only [IsolatedFrame.post, h]

/-- Nothing else is logged. -/
theorem Logged.mem_log_post {raw text : String} {f : Logged φ}
    (h : text ∈ (IsolatedFrame.post raw f).2.log) : text ∈ f.log ∨ text = raw := by
  rcases hp : IsolatedFrame.post raw f.frame with ⟨_ | _, frame⟩
  · simp only [IsolatedFrame.post, hp] at h
    exact .inl h
  · rw [Logged.log_post (by rw [hp])] at h
    simpa using h

namespace Manager

/-! ### Runs -/

/-- What a manager is asked to do and what reaches it. -/
inductive Input where
  | render (html : String) (context : Value)
  | updateContext (path : String) (value : Value)
  /-- An event is handled at once. -/
  | event (e : MessageEvent)
  /-- An event is posted to the host window. -/
  | arrive (e : MessageEvent)
  /-- What was posted to the host window is handled. -/
  | pump
  | destroy

def act (m : Manager φ) : Input → Manager φ
  | .render html context => (m.render html context).2
  | .updateContext path value => (m.updateContext path value).2
  | .event e => (m.handleEvent e).2
  | .arrive e => { m with host := m.host.post e }
  | .pump => m.pump.2
  | .destroy => m.destroy

def run (m : Manager φ) (inputs : List Input) : Manager φ :=
  inputs.foldl act m

/-- The message that a call is to post. -/
def Input.call? : Input → Option FrameMessage
  | .render html context => some (.render html context)
  | .updateContext path value => some (.updateContext path value)
  | _ => none

def calls (inputs : List Input) : List FrameMessage :=
  inputs.filterMap Input.call?

/-- The message of the managed window that an event brings. -/
def hears (m : Manager φ) (e : MessageEvent) : List FrameMessage :=
  if e.source ≠ IsolatedFrame.window m.frame ∨ m.phase = .destroyed then []
  else (FrameMessage.decode e.data).toOption.toList

def handleAll (m : Manager φ) (es : List MessageEvent) : Manager φ :=
  es.foldl (fun m e => (m.handleEvent e).2) m

def hearsAll (m : Manager φ) : List MessageEvent → List FrameMessage
  | [] => []
  | e :: es => m.hears e ++ (m.handleEvent e).2.hearsAll es

/-- Messages of the managed window that one input brings. -/
def heardBy (m : Manager φ) : Input → List FrameMessage
  | .event e => m.hears e
  | .pump => m.takeEvents.2.hearsAll m.takeEvents.1
  | _ => []

/-- All messages of the managed window that a run brings, in order. -/
def heard (m : Manager φ) : List Input → List FrameMessage
  | [] => []
  | i :: inputs => m.heardBy i ++ (m.act i).heard inputs

/-- A manager of the same frame, which also logs from now on what it takes. -/
def logged (m : Manager φ) : Manager (Logged φ) where
  host := m.host
  frame := { frame := m.frame }
  phase := m.phase
  queue := m.queue
  lastError := m.lastError
  listener := m.listener

def erase (m : Manager (Logged φ)) : Manager φ where
  host := m.host
  frame := m.frame.frame
  phase := m.phase
  queue := m.queue
  lastError := m.lastError
  listener := m.listener

/-- Texts that the frame takes during a run. -/
def posted (m : Manager φ) (inputs : List Input) : List String :=
  (m.logged.run inputs).frame.log

theorem run_concat (m : Manager φ) (inputs : List Input) (i : Input) :
    m.run (inputs ++ [i]) = (m.run inputs).act i :=
  List.foldl_append

theorem heard_concat (m : Manager φ) (inputs : List Input) (i : Input) :
    m.heard (inputs ++ [i]) = m.heard inputs ++ (m.run inputs).heardBy i := by
  induction inputs generalizing m with
  | nil => exact List.append_nil _
  | cons j inputs ih =>
    rw [List.cons_append, heard, ih, heard, List.append_assoc]
    rfl

theorem calls_concat (inputs : List Input) (i : Input) :
    calls (inputs ++ [i]) = calls inputs ++ i.call?.toList := by
  rw [calls, List.filterMap_append]
  cases h : i.call? <;> simp [calls, h]

/-- An event changes nothing or brings one message. -/
theorem handleEvent_cases (m : Manager φ) (e : MessageEvent) :
    m.hears e = [] ∧ (m.handleEvent e).2 = m ∨
      ∃ x, m.hears e = [x] ∧ m.phase ≠ .destroyed ∧ (m.handleEvent e).2 = (m.receive x).2 := by
  unfold hears handleEvent
  split
  · exact .inl ⟨rfl, rfl⟩
  · next h =>
    cases hd : FrameMessage.decode e.data with
    | error f => exact .inl ⟨rfl, rfl⟩
    | ok x => exact .inr ⟨x, rfl, fun hp => h (.inr hp), rfl⟩

theorem pump_eq (m : Manager φ) : m.pump.2 = m.takeEvents.2.handleAll m.takeEvents.1 := by
  unfold pump handleAll
  obtain ⟨es, m⟩ := m.takeEvents
  exact (List.foldl_hom Prod.snd fun _ _ => rfl).symm

/-! ### The log changes nothing -/

theorem erase_post (n : Manager (Logged φ)) (x : FrameMessage) : (n.post x).2.erase = (n.erase.post x).2 := by
  exact congrArg (fun frame => { n.erase with frame }) (Logged.frame_post x.encode n.frame)

theorem erase_send (n : Manager (Logged φ)) (x : FrameMessage) : (n.send x).2.erase = (n.erase.send x).2 := by
  have hphase : n.erase.phase = n.phase := rfl
  unfold send
  rw [hphase]
  cases n.phase with
  | ready => exact erase_post n x
  | _ => rfl

theorem erase_flush (n : Manager (Logged φ)) : n.flush.erase = n.erase.flush := by
  have hfold : ∀ (xs : List FrameMessage) (n : Manager (Logged φ)),
      (xs.foldl (fun m x => (m.post x).2) n).erase = xs.foldl (fun m x => (m.post x).2) n.erase := by
    intro xs
    induction xs with
    | nil => exact fun n => rfl
    | cons x xs ih =>
      intro n
      rw [List.foldl_cons, List.foldl_cons, ih, erase_post]
  exact congrArg (fun m : Manager φ => { m with queue := [] }) (hfold n.queue n)

theorem erase_receive (n : Manager (Logged φ)) (x : FrameMessage) :
    (n.receive x).2.erase = (n.erase.receive x).2 := by
  cases x with
  | ready =>
    have hphase : n.erase.phase = n.phase := rfl
    unfold receive
    rw [hphase]
    dsimp only
    split
    · exact erase_flush _
    · rfl
  | _ => rfl

theorem erase_handleEvent (n : Manager (Logged φ)) (e : MessageEvent) :
    (n.handleEvent e).2.erase = (n.erase.handleEvent e).2 := by
  have hears : n.erase.hears e = n.hears e := rfl
  rcases handleEvent_cases n e with ⟨hn, he⟩ | ⟨x, hn, -, he⟩
  · rcases handleEvent_cases n.erase e with ⟨-, he'⟩ | ⟨x', hn', -⟩
    · rw [he, he']
    · rw [hears, hn] at hn'
      cases hn'
  · rcases handleEvent_cases n.erase e with ⟨hn', -⟩ | ⟨x', hn', -, he'⟩
    · rw [hears, hn] at hn'
      cases hn'
    · rw [hears, hn] at hn'
      cases hn'
      rw [he, he', erase_receive]

theorem erase_handleAll (n : Manager (Logged φ)) (es : List MessageEvent) :
    (n.handleAll es).erase = n.erase.handleAll es ∧ n.erase.hearsAll es = n.hearsAll es := by
  induction es generalizing n with
  | nil => exact ⟨rfl, rfl⟩
  | cons e es ih =>
    obtain ⟨hall, hheard⟩ := ih (n.handleEvent e).2
    rw [erase_handleEvent] at hall hheard
    exact ⟨hall, congrArg (n.hears e ++ ·) hheard⟩

theorem erase_act (n : Manager (Logged φ)) (i : Input) :
    (n.act i).erase = n.erase.act i ∧ n.erase.heardBy i = n.heardBy i := by
  cases i with
  | render html context => exact ⟨erase_send n _, rfl⟩
  | updateContext path value => exact ⟨erase_send n _, rfl⟩
  | event e => exact ⟨erase_handleEvent n e, rfl⟩
  | arrive e => exact ⟨rfl, rfl⟩
  | pump =>
    obtain ⟨hall, hheard⟩ := erase_handleAll n.takeEvents.2 n.takeEvents.1
    refine ⟨?_, hheard⟩
    rw [act, act, pump_eq, pump_eq]
    exact hall
  | destroy =>
    have hphase : n.erase.phase = n.phase := rfl
    refine ⟨?_, rfl⟩
    rw [act, act]
    unfold Manager.destroy
    rw [hphase]
    cases n.phase <;> rfl

/-- A log is kept beside a run and takes no part in it. -/
theorem erase_run (m : Manager φ) (inputs : List Input) :
    (m.logged.run inputs).erase = m.run inputs ∧ m.logged.heard inputs = m.heard inputs := by
  induction inputs using List.reverseRecOn with
  | nil => exact ⟨rfl, rfl⟩
  | append_singleton inputs i ih =>
    obtain ⟨hact, hheard⟩ := erase_act (m.logged.run inputs) i
    rw [ih.1] at hact hheard
    rw [run_concat, run_concat, heard_concat, heard_concat, hact, hheard, ih.2]
    exact ⟨rfl, rfl⟩

end Manager

end SecureLayout.Sandbox
