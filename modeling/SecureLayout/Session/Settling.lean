import SecureLayout.Session.LayoutSession

/-!
A session and its guest taking turns until neither has anything to do. Only what the host sends makes a
guest answer, and no answer of a guest that has started makes the host send, so a few turns are enough.
-/

namespace SecureLayout

open Sandbox (Guest Notice)

/-- Who runs. -/
inductive Turn where
  | guest
  | host
  deriving DecidableEq, Repr

/-- What others are told while a session settles. -/
inductive Report where
  | notice (n : Notice)
  | refusal (r : Component.Refusal)

namespace LayoutSession

variable {σ : Type}

/-- Whether running the host would do anything. -/
def hasEvents (s : LayoutSession σ Guest) : Bool :=
  !s.manager.takeEvents.1.isEmpty

/-- The side that has something to do, the host first. -/
def nextTurn (s : LayoutSession σ Guest) : Option Turn :=
  if s.hasEvents then some .host else if s.manager.frame.isWaiting then some .guest else none

/-- Runs one side for as long as it has something to do. -/
def take (turn : Turn) (s : LayoutSession σ Guest) : List Report × LayoutSession σ Guest :=
  match turn with
  | .host =>
    let (ns, s) := s.pump
    (ns.map .notice, s)
  | .guest =>
    let m := s.manager
    let (host, guest) := m.frame.runIn m.host
    let (refusals, frame) := guest.takeRefusals
    (refusals.map .refusal, s.withManager { m with host, frame })

/-- Five turns in alternation, as many as ever have something to do: a greeting makes the host send what
waited, what was sent makes the guest answer, and the host only takes note of that. -/
def settle (s : LayoutSession σ Guest) (first : Turn) : List Report × LayoutSession σ Guest :=
  let turns : List Turn :=
    match first with
    | .guest => [.guest, .host, .guest, .host, .guest]
    | .host => [.host, .guest, .host, .guest, .host]
  turns.foldl (fun (rs, s) t =>
    let (more, s) := s.take t
    (rs ++ more, s)) ([], s)

end LayoutSession

end SecureLayout
