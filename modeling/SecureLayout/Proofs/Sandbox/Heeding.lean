import SecureLayout.Proofs.Sandbox.Alike
import SecureLayout.Sandbox.Recording

/-!
Events a manager heeds: those of its own window whose text is a message for the host. Main statements: nothing becomes
of any other event, and of two managers that are alike, the one that is spared such events stays alike to the one that
gets them all.
-/

namespace SecureLayout.Sandbox

open Json (Value)
open Wire (FrameMessage)

/-- Nothing that is done to a frame gives it another window. -/
structure KeepsWindow (φ : Type) [IsolatedFrame φ] : Prop where
  attach : ∀ (host : HostWindow) (f : φ), IsolatedFrame.window (IsolatedFrame.attach host f).2 = IsolatedFrame.window f
  post : ∀ (raw : String) (f : φ), IsolatedFrame.window (IsolatedFrame.post raw f).2 = IsolatedFrame.window f
  remove : ∀ f : φ, IsolatedFrame.window (IsolatedFrame.remove f) = IsolatedFrame.window f

theorem keepsWindow_recording : KeepsWindow RecordingFrame where
  attach host f := by
    change (IsolatedFrame.attach host f).2.window = f.window
    simp only [IsolatedFrame.attach]
    split <;> rfl
  post raw f := by
    change (IsolatedFrame.post raw f).2.window = f.window
    simp only [IsolatedFrame.post]
    split <;> rfl
  remove _ := rfl

theorem ignoresListeners_recording : IgnoresListeners RecordingFrame :=
  fun _ _ _ _ => rfl

theorem keepsWindow_guest : KeepsWindow Guest where
  attach host g := by
    change (Guest.attach host g).2.window = g.window
    unfold Guest.attach
    split
    · rfl
    · split <;> rfl
  post raw g := by
    change (Guest.post raw g).2.window = g.window
    unfold Guest.post
    split <;> rfl
  remove _ := rfl

/-- The text of the event is a message for the host, and the event comes from window `w`. -/
def MessageEvent.concerns (w : WindowRef) (e : MessageEvent) : Bool :=
  decide (e.source = w) && (FrameMessage.decode e.data).toOption.any FrameMessage.isHostBound

/-- What is waiting, but for the events that do not concern window `w`. -/
def Inbox.only (b : Inbox) (w : WindowRef) : Inbox :=
  { b with events := b.events.filter (MessageEvent.concerns w) }

namespace Inbox

variable {b : Inbox} {e : MessageEvent} {w : WindowRef}

theorem only_take (he : e.concerns w = true) :
    (HostWindow.Inbox.take b e).only w = HostWindow.Inbox.take (b.only w) e := by
  unfold HostWindow.Inbox.take only
  dsimp only
  split
  · rfl
  · split
    · simp [he]
    · rfl

/-- An inbox that is registered and that nobody reads would notice that something came. -/
theorem only_take_of_not (he : e.concerns w = false) (hb : b.isRegistered = true → b.isRead = true) :
    (HostWindow.Inbox.take b e).only w = b.only w := by
  unfold HostWindow.Inbox.take
  cases hreg : b.isRegistered with
  | false => rfl
  | true =>
    simp [only, he, hreg, hb hreg]

end Inbox

variable {φ : Type} [IsolatedFrame φ]

theorem keepsWindow_watched (h : KeepsWindow φ) : KeepsWindow (Watched φ) where
  attach host f := h.attach host f.frame
  post raw f := h.post raw f.frame
  remove f := h.remove f.frame

namespace Manager

/-- The window of the managed frame. -/
def window (m : Manager φ) : WindowRef :=
  IsolatedFrame.window m.frame

variable {m m' : Manager φ} {w : WindowRef} {e : MessageEvent}

theorem Alike.window (h : m.Alike m') : m'.window = m.window := by
  obtain ⟨v, l, rfl⟩ := h
  rfl

/-! ### What does not concern a manager -/

theorem handleEvent_of_not_concerns (he : e.concerns m.window = false) : m.handleEvent e = (none, m) := by
  unfold handleEvent
  split
  · rfl
  · next h =>
    have hsource : e.source = m.window := not_not.1 fun hs => h (.inl hs)
    cases hd : FrameMessage.decode e.data with
    | error f => rfl
    | ok x =>
      rw [MessageEvent.concerns, hd, decide_eq_true hsource, Bool.true_and] at he
      cases x with
      | render | updateContext => rfl
      | ready | rendered | outputChange | error => cases he

/-! ### A manager keeps its window -/

theorem window_send (h : KeepsWindow φ) (m : Manager φ) (x : FrameMessage) : (m.send x).2.window = m.window := by
  unfold send
  split
  · rfl
  · rfl
  · exact h.post x.encode m.frame

theorem window_flush (h : KeepsWindow φ) (m : Manager φ) : m.flush.window = m.window := by
  refine List.foldlRecOn (motive := fun n : Manager φ => n.window = m.window) m.queue
    (fun n x => (n.post x).2) rfl fun n hn x _ => ?_
  exact (h.post x.encode n.frame).trans hn

theorem window_receive (h : KeepsWindow φ) (m : Manager φ) (x : FrameMessage) : (m.receive x).2.window = m.window := by
  cases x with
  | ready =>
    unfold receive
    dsimp only
    split
    · exact window_flush h _
    · rfl
  | _ => rfl

theorem window_handleEvent (h : KeepsWindow φ) (m : Manager φ) (e : MessageEvent) :
    (m.handleEvent e).2.window = m.window := by
  rcases handleEvent_cases m e with ⟨-, he⟩ | ⟨x, -, -, he⟩ <;> rw [he]
  exact window_receive h m x

theorem window_pump (h : KeepsWindow φ) (m : Manager φ) : m.pump.2.window = m.window := by
  rw [pump_eq]
  refine List.foldlRecOn (motive := fun n : Manager φ => n.window = m.window) m.takeEvents.1
    (fun n e => (n.handleEvent e).2) rfl fun n hn e _ => ?_
  exact (window_handleEvent h n e).trans hn

theorem window_destroy (h : KeepsWindow φ) (m : Manager φ) : m.destroy.window = m.window := by
  unfold Manager.destroy
  split
  · rfl
  · exact h.remove m.frame

/-! ### Being spared what does not concern one -/

/-- One event more is handled, and its report put to the others. -/
def hear (x : List Notice × Manager φ) (e : MessageEvent) : List Notice × Manager φ :=
  (x.1 ++ (x.2.handleEvent e).1.toList, (x.2.handleEvent e).2)

theorem pump_eq_foldl (m : Manager φ) : m.pump = m.takeEvents.1.foldl hear ([], m.takeEvents.2) := rfl

/-- One handles all events, the other those that concern it. -/
theorem Alike.foldl_hear (hkeeps : KeepsWindow φ) (es : List MessageEvent) (ns : List Notice) (h : m.Alike m') :
    ((es.filter (MessageEvent.concerns m.window)).foldl hear (ns, m')).1 = (es.foldl hear (ns, m)).1 ∧
      (es.foldl hear (ns, m)).2.Alike ((es.filter (MessageEvent.concerns m.window)).foldl hear (ns, m')).2 := by
  induction es generalizing ns m m' with
  | nil => exact ⟨rfl, h⟩
  | cons e es ih =>
    rw [List.foldl_cons]
    cases he : e.concerns m.window with
    | true =>
      obtain ⟨hnotice, hnext⟩ := h.handleEvent e
      have hrest := ih (ns ++ (m.handleEvent e).1.toList) hnext
      rw [window_handleEvent hkeeps] at hrest
      rw [List.filter_cons_of_pos he, List.foldl_cons, hear, hear, hnotice]
      exact hrest
    | false =>
      have hsame : hear (ns, m) e = (ns, m) := by
        rw [hear, handleEvent_of_not_concerns he, Option.toList_none, List.append_nil]
      rw [List.filter_cons_of_neg (Bool.eq_false_iff.1 he), hsame]
      exact ih ns h

theorem Alike.pump_only (hkeeps : KeepsWindow φ) (h : m.Alike m')
    (hevents : m'.takeEvents.1 = m.takeEvents.1.filter (MessageEvent.concerns m.window)) :
    m'.pump.1 = m.pump.1 ∧ m.pump.2.Alike m'.pump.2 := by
  rw [pump_eq_foldl, pump_eq_foldl, hevents]
  exact h.takeEvents.foldl_hear hkeeps m.takeEvents.1 []

/-! ### What a manager does to the window -/

/-- On its way from `m` to `m'` the manager has done `f` to its own inbox, and nothing else to the window. -/
structure Tends (f : Inbox → Inbox) (m m' : Manager φ) : Prop where
  listener : m'.listener = m.listener
  runs : m'.host.runsTasks = m.host.runsTasks
  inboxes : ∀ i, m'.host.inboxes[i]? =
    if i = m.listener then (m.host.inboxes[i]?).map f else m.host.inboxes[i]?

omit [IsolatedFrame φ] in
theorem tends_self (m : Manager φ) : Tends id m m :=
  ⟨rfl, rfl, fun _ => by simp⟩

omit [IsolatedFrame φ] in
theorem tends_takeEvents (m : Manager φ) : Tends (fun b => { b with events := [] }) m m.takeEvents.2 :=
  ⟨rfl, rfl, fun i => m.host.inboxes_drain i m.listener⟩

variable {f : Inbox → Inbox} {n n₁ n₂ : Manager (Watched φ)}

omit [IsolatedFrame φ] in
theorem Tends.talked (h : Tends f n n₁) (t : Talked n₁ n₂) : Tends f n n₂ where
  listener := t.listener.trans h.listener
  runs := by rw [t.host, h.runs]
  inboxes := by
    rw [t.host]
    exact h.inboxes

theorem tends_destroy (hn : n.phase ≠ .destroyed) :
    Tends (fun _ => { isRead := false, isRegistered := false }) n n.destroy := by
  rcases n.destroy_cases with ⟨hgone, -⟩ | ⟨-, hhost, hlistener, -⟩
  · exact absurd hgone hn
  · exact ⟨hlistener, by rw [hhost]; rfl, fun i => by rw [hhost, HostWindow.inboxes_release]⟩

end Manager

end SecureLayout.Sandbox
