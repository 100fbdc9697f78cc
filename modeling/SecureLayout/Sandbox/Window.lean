import SecureLayout.Failure

/-!
The window of the host page, and what the page needs of a frame. Frames post to it under their own window, and every
listener sees every event; a listener nobody reads any more is dropped when the next event comes. The page and a frame
share nothing else: text goes in through `post`.
-/

namespace SecureLayout.Sandbox

/-- Identity of a window, never used again. -/
structure WindowRef where
  id : Nat
  deriving DecidableEq, Repr, Inhabited

structure MessageEvent where
  source : WindowRef
  data : String
  deriving DecidableEq, Repr

/-- Events for one listener. -/
structure Inbox where
  events : List MessageEvent := []
  /-- Somebody still reads. -/
  isRead : Bool := true
  /-- The window still delivers here. -/
  isRegistered : Bool := true
  deriving Repr

/-- Inboxes of all listeners ever added; a listener is known by its position. -/
structure HostWindow where
  inboxes : List Inbox := []
  /-- Tasks of the page and of its frames can be run. -/
  runsTasks : Bool := true
  deriving Repr

namespace HostWindow

def addListener (w : HostWindow) : Nat × HostWindow :=
  (w.inboxes.length, { w with inboxes := w.inboxes ++ [{}] })

def isRegistered (w : HostWindow) (i : Nat) : Bool :=
  (w.inboxes[i]?).any (·.isRegistered)

/-- Whether the listener was registered until now. -/
def removeListener (w : HostWindow) (i : Nat) : Bool × HostWindow :=
  (w.isRegistered i, { w with inboxes := w.inboxes.modify i fun b => { b with isRegistered := false } })

def listenerCount (w : HostWindow) : Nat :=
  w.inboxes.countP (·.isRegistered)

def Inbox.take (b : Inbox) (e : MessageEvent) : Inbox :=
  if !b.isRegistered then b
  else if b.isRead then { b with events := b.events ++ [e] }
  else { b with isRegistered := false }

/-- Delivers an event to every listener. -/
def post (w : HostWindow) (e : MessageEvent) : HostWindow :=
  { w with inboxes := w.inboxes.map fun b => Inbox.take b e }

/-- The events a listener has not read yet; they are read now. -/
def drain (w : HostWindow) (i : Nat) : List MessageEvent × HostWindow :=
  (((w.inboxes[i]?).map (·.events)).getD [],
    { w with inboxes := w.inboxes.modify i fun b => { b with events := [] } })

/-- Nobody reads a listener's events any more. -/
def abandon (w : HostWindow) (i : Nat) : HostWindow :=
  { w with inboxes := w.inboxes.modify i fun b => { b with isRead := false, events := [] } }

end HostWindow

end SecureLayout.Sandbox

namespace SecureLayout.Sandbox

/-- Frames whose state is a `φ`. -/
class IsolatedFrame (φ : Type) where
  window : φ → WindowRef
  /-- The frame's `sandbox` attribute. -/
  attributes : φ → String
  /-- Puts the frame into the page and starts it. -/
  attach : HostWindow → φ → Result Unit × φ
  post : String → φ → Result Unit × φ
  /-- Takes the frame out of the page; taking it out again does nothing. -/
  remove : φ → φ
  isAttached : φ → Bool

end SecureLayout.Sandbox
