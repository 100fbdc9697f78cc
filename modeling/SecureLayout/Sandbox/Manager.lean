import SecureLayout.Sandbox.Attributes
import SecureLayout.Sandbox.Window
import SecureLayout.Wire.Frame

/-!
The host's side of a sandboxed frame. What is sent before the guest is ready waits and then follows in
order. Main statements: a phase only ever follows an earlier one, and what is sent to a waiting frame is
kept, in order.
-/

namespace SecureLayout.Sandbox

open Json (Value)
open Wire (FrameMessage)

/-- Where a frame stands; there is no way back. -/
inductive Phase where
  | waiting
  | ready
  | destroyed
  deriving DecidableEq, Repr

namespace Phase

def rank : Phase → Nat
  | waiting => 0
  | ready => 1
  | destroyed => 2

end Phase

/-- What a phase looks like from outside. -/
inductive TransportState where
  | waiting
  | ready
  /-- Ready, but the guest's last report was an error. -/
  | errored
  | destroyed
  deriving DecidableEq, Repr

def TransportState.title : TransportState → String
  | waiting => "Waiting"
  | ready => "Ready"
  | errored => "Errored"
  | destroyed => "Destroyed"

/-- A report of the guest that its host acts on. -/
inductive Notice where
  | rendered
  | outputChange (field : String) (value : Value)
  | failed (e : Failure)

/-- The host window, a frame in it, and what is known of the frame. -/
structure Manager (φ : Type) where
  host : HostWindow
  frame : φ
  phase : Phase := .waiting
  /-- Messages that wait for the guest, the next one first. -/
  queue : List FrameMessage := []
  /-- The guest's last error, until it paints again. -/
  lastError : Option Failure := none
  listener : Nat

/-- Why a frame could not be mounted, and what that left behind. -/
structure MountFailure (φ : Type) where
  cause : Failure
  host : HostWindow
  frame : φ

namespace Manager

variable {φ : Type}

def state (m : Manager φ) : TransportState :=
  match m.phase with
  | .waiting => .waiting
  | .ready => if m.lastError.isSome then .errored else .ready
  | .destroyed => .destroyed

/-- Events that were posted and not handled yet. -/
def takeEvents (m : Manager φ) : List MessageEvent × Manager φ :=
  let (es, host) := m.host.drain m.listener
  (es, { m with host })

variable [IsolatedFrame φ]

/-- Stops listening and takes the frame out of the page; doing so again does nothing. -/
def destroy (m : Manager φ) : Manager φ :=
  match m.phase with
  | .destroyed => m
  | _ =>
    let host := (m.host.removeListener m.listener).2.abandon m.listener
    { m with host, frame := IsolatedFrame.remove m.frame, phase := .destroyed, queue := [] }

/-- Listens to the host window and then attaches the frame. -/
def mount (host : HostWindow) (frame : φ) : Except (MountFailure φ) (Manager φ) :=
  match validateAttributes (IsolatedFrame.attributes frame) with
  | .error e => .error ⟨e, host, frame⟩
  | .ok () =>
    if !host.runsTasks then
      .error ⟨.internal "sandbox manager needs a tokio runtime", host, frame⟩
    else
      let (listener, host) := host.addListener
      match IsolatedFrame.attach host frame with
      | (.ok (), frame) => .ok { host, frame, listener }
      | (.error e, frame) =>
        let m := Manager.destroy { host, frame, listener }
        .error ⟨e, m.host, m.frame⟩

/-- Posts a message to the frame. -/
def post (m : Manager φ) (x : FrameMessage) : Result Unit × Manager φ :=
  let (r, frame) := IsolatedFrame.post x.encode m.frame
  (r, { m with frame })

def send (m : Manager φ) (x : FrameMessage) : Result Unit × Manager φ :=
  match m.phase with
  | .destroyed => (.error (.transport "sandbox transport destroyed"), m)
  | .waiting => (.ok (), { m with queue := m.queue ++ [x] })
  | .ready => m.post x

def render (m : Manager φ) (html : String) (context : Value) : Result Unit × Manager φ :=
  m.send (.render html context)

def updateContext (m : Manager φ) (path : String) (value : Value) : Result Unit × Manager φ :=
  m.send (.updateContext path value)

/-- Posts what waited; what the frame does not take is lost. -/
def flush (m : Manager φ) : Manager φ :=
  { m.queue.foldl (fun m x => (m.post x).2) m with queue := [] }

/-- Acts on a message of the managed frame. -/
def receive (m : Manager φ) : FrameMessage → Option Notice × Manager φ
  | .ready => (none, if m.phase = .waiting then { m with phase := .ready }.flush else m)
  | .rendered => (some .rendered, { m with lastError := none })
  | .outputChange field value => (some (.outputChange field value), m)
  | .error text => (some (.failed (.transport text)), { m with lastError := some (.transport text) })
  | .render _ _ | .updateContext _ _ => (none, m)

/-- An event of the host window. Those of other windows are not looked at, and what is no message is
dropped. -/
def handleEvent (m : Manager φ) (e : MessageEvent) : Option Notice × Manager φ :=
  if e.source ≠ IsolatedFrame.window m.frame ∨ m.phase = .destroyed then (none, m)
  else
    match FrameMessage.decode e.data with
    | .error _ => (none, m)
    | .ok x => m.receive x

/-- Handles all events that were posted. -/
def pump (m : Manager φ) : List Notice × Manager φ :=
  let (es, m) := m.takeEvents
  es.foldl (fun (ns, m) e =>
    let (n, m) := m.handleEvent e
    (ns ++ n.toList, m)) ([], m)

/-! ### Laws -/

theorem send_waiting (m : Manager φ) (x : FrameMessage) (h : m.phase = .waiting) :
    m.send x = (.ok (), { m with queue := m.queue ++ [x] }) := by
  simp [send, h]

theorem phase_destroy (m : Manager φ) : m.destroy.phase = .destroyed := by
  unfold destroy
  split
  · assumption
  · rfl

theorem destroy_of_destroyed (m : Manager φ) (h : m.phase = .destroyed) : m.destroy = m := by
  simp [destroy, h]

theorem destroy_destroy (m : Manager φ) : m.destroy.destroy = m.destroy :=
  m.destroy.destroy_of_destroyed m.phase_destroy

theorem phase_flush (m : Manager φ) : m.flush.phase = m.phase := by
  have hfold (xs : List FrameMessage) :
      ∀ m : Manager φ, (xs.foldl (fun m x => (m.post x).2) m).phase = m.phase := by
    induction xs with
    | nil => exact fun _ => rfl
    | cons x xs ih => exact fun m => ih _
  exact hfold m.queue m

theorem phase_receive (m : Manager φ) (x : FrameMessage) :
    m.phase.rank ≤ (m.receive x).2.phase.rank := by
  cases x with
  | ready =>
    unfold receive
    by_cases h : m.phase = .waiting
    · simp [h, phase_flush, Phase.rank]
    · simp [h]
  | _ => exact Nat.le_refl _

theorem phase_handleEvent (m : Manager φ) (e : MessageEvent) :
    m.phase.rank ≤ (m.handleEvent e).2.phase.rank := by
  unfold handleEvent
  split
  · exact Nat.le_refl _
  · split
    · exact Nat.le_refl _
    · exact phase_receive m _

end Manager

end SecureLayout.Sandbox
