import SecureLayout.Sandbox.Window

/-!
A host window whose listeners and senders go by names. A name given to a listener again takes its events
away from the one that had it, which stays until the next event comes.
-/

namespace SecureLayout.Sandbox

structure WindowDirectory where
  window : HostWindow := {}
  /-- The last listener of each name. -/
  listeners : List (String × Nat) := []
  /-- Those of them whose events are still read. -/
  readers : List (String × Nat) := []
  /-- Names of senders; each sends from the window at its position. -/
  senders : List String := []

namespace WindowDirectory

def withWindow (d : WindowDirectory) (w : HostWindow) : WindowDirectory :=
  { d with window := w }

/-- Nobody reads any more under a name; whether somebody did. -/
def dropReader (d : WindowDirectory) (name : String) : Bool × WindowDirectory :=
  match d.readers.lookup name with
  | none => (false, d)
  | some i =>
    (true, { d with window := d.window.abandon i, readers := d.readers.filter (·.1 != name) })

def add (d : WindowDirectory) (name : String) : WindowDirectory :=
  let d := (d.dropReader name).2
  let (i, window) := d.window.addListener
  { d with window, listeners := (name, i) :: d.listeners, readers := (name, i) :: d.readers }

/-- Whether the listener of a name was registered until now, if the name was ever given. -/
def remove (d : WindowDirectory) (name : String) : Option Bool × WindowDirectory :=
  match d.listeners.lookup name with
  | none => (none, d)
  | some i =>
    let (b, w) := d.window.removeListener i
    (some b, d.withWindow w)

def post (d : WindowDirectory) (sender data : String) : WindowDirectory :=
  let senders := if d.senders.contains sender then d.senders else d.senders ++ [sender]
  { d with window := d.window.post ⟨⟨senders.idxOf sender⟩, data⟩, senders }

/-- Senders and texts of the events that are waiting under a name; they are read now. -/
def receive (d : WindowDirectory) (name : String) : List (String × String) × WindowDirectory :=
  match d.readers.lookup name with
  | none => ([], d)
  | some i =>
    let (es, w) := d.window.drain i
    (es.map fun e => (d.senders.getD e.source.id "", e.data), d.withWindow w)

end WindowDirectory

end SecureLayout.Sandbox
