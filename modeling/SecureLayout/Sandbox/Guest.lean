import SecureLayout.Component.Hydration
import SecureLayout.Json.Path
import SecureLayout.Sandbox.Attributes
import SecureLayout.Sandbox.Window
import SecureLayout.Wire.Frame

/-!
The guest in a frame: it paints markup, keeps the context up to date and answers with messages. Main
statement: what cannot be read, or names no path, leaves the painted document as it is.
-/

namespace SecureLayout.Sandbox

open Json (Value)
open Wire (FrameMessage)

/-- What the guest has painted. -/
structure GuestDocument where
  html : String := ""
  context : Value := .null
  renders : Nat := 0
  deriving Repr

structure Guest where
  window : WindowRef
  resolver : Component.Resolver
  painting : Component.Painting
  /-- Texts the guest has not read yet; without an inbox it is not in the page. -/
  inbox : Option (List String) := none
  /-- It is in the page and has not said so yet. -/
  isStarting : Bool := false
  document : GuestDocument := {}

namespace Guest

def attach (host : HostWindow) (g : Guest) : Result Unit × Guest :=
  if !host.runsTasks then (.error (.internal "guest frame needs a tokio runtime"), g)
  else
    match g.inbox with
    | some _ => (.error (.transport "frame already attached"), g)
    | none => (.ok (), { g with inbox := some [], isStarting := true })

def post (raw : String) (g : Guest) : Result Unit × Guest :=
  match g.inbox with
  | none => (.error (.transport "frame not attached"), g)
  | some raws => (.ok (), { g with inbox := some (raws ++ [raw]) })

/-- What was not read yet never is. -/
def remove (g : Guest) : Guest :=
  { g with inbox := none, isStarting := false }

instance : IsolatedFrame Guest where
  window := Guest.window
  attributes := fun _ => frameAttributes
  attach := Guest.attach
  post := Guest.post
  remove := Guest.remove
  isAttached := fun g => g.inbox.isSome

/-- Paints markup and takes its context over. -/
def paint (g : Guest) (html : String) (context : Value) : Guest :=
  let (html, painting) := Component.hydrate g.resolver html g.painting
  { g with painting, document := { html, context, renders := g.document.renders + 1 } }

/-- Acts on a text and says what to answer. -/
def receive (g : Guest) (raw : String) : Option FrameMessage × Guest :=
  match FrameMessage.decode raw with
  | .error e => (some (.error e.message), g)
  | .ok (.render html context) => (some .rendered, g.paint html context)
  | .ok (.updateContext path value) =>
    match g.document.context.setPath path value with
    | .ok context => (none, { g with document := { g.document with context } })
    | .error e => (some (.error e.message), g)
  | .ok _ => (none, g)

/-- Reads texts in order. -/
def receiveAll (g : Guest) : List String → List FrameMessage × Guest
  | [] => ([], g)
  | raw :: r =>
    let (answer, g) := g.receive raw
    let (answers, g) := g.receiveAll r
    (answer.toList ++ answers, g)

/-- Says that it is ready, if it has not yet, and then reads everything that waits. -/
def run (g : Guest) : List FrameMessage × Guest :=
  match g.inbox with
  | none => ([], g)
  | some raws =>
    let greeting : List FrameMessage := if g.isStarting then [.ready] else []
    let (answers, g) := { g with inbox := some [], isStarting := false }.receiveAll raws
    (greeting ++ answers, g)

/-- Posts a message to the host window in the guest's name. -/
def say (g : Guest) (host : HostWindow) (x : FrameMessage) : HostWindow :=
  host.post ⟨g.window, x.encode⟩

/-- Runs the guest and posts what it says. -/
def runIn (host : HostWindow) (g : Guest) : HostWindow × Guest :=
  let (said, g) := g.run
  (said.foldl g.say host, g)

/-- Whether running the guest would do anything. -/
def isWaiting (g : Guest) : Bool :=
  g.isStarting || g.inbox.any (!·.isEmpty)

/-- Components it was refused since this was last asked. -/
def takeRefusals (g : Guest) : List Component.Refusal × Guest :=
  (g.painting.refusals, { g with painting := { g.painting with refusals := [] } })

theorem document_receive_of_error (g : Guest) (raw : String) (e : Failure)
    (h : FrameMessage.decode raw = .error e) :
    g.receive raw = (some (.error e.message), g) := by
  simp [receive, h]

theorem document_receive_of_badPath (g : Guest) (raw path : String) (value : Value) (e : Failure)
    (h : FrameMessage.decode raw = .ok (.updateContext path value))
    (hp : g.document.context.setPath path value = .error e) :
    g.receive raw = (some (.error e.message), g) := by
  simp [receive, h, hp]

end Guest

end SecureLayout.Sandbox
